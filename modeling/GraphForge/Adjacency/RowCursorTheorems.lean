import GraphForge.Adjacency.RowCursor
import GraphForge.Adjacency.ShardStoreTheorems
import GraphForge.Lib.Xxh64

/-!
# The cursor returns the rows of random access

The invariant of the loop, `CsrRowCursor.Pending`, says what the cursor still owes of
every row from the next node on: the row put aside, the rest of the loaded shard, and the
shards not yet loaded. Every pass of the loop keeps it or returns the row of the next
node, and a pull fails only when a shard cannot be read.
-/

namespace GraphForge.Adjacency

open List

/-- The row consists of the pairs. -/
def CsrRow.Is (row : CsrRow) (pairs : List (ℕ × ℕ)) : Prop :=
  row.edgeIds = pairs.map Prod.fst ∧ row.neighborIds = pairs.map Prod.snd

lemma CsrRow.is_iter_row (csr : CsrIndex) (i : ℕ) : (csr.row i).Is (csr.row i).iter := by
  have hlen := csr.row_length_eq i
  refine ⟨?_, ?_⟩
  · rw [CsrRow.iter, map_fst_zip (by omega)]
  · rw [CsrRow.iter, map_snd_zip (by omega)]

lemma SpanningRow.is_append {s : SpanningRow} {row : CsrRow} {acc pairs : List (ℕ × ℕ)}
    (hs : s.row.Is acc) (hrow : row.Is pairs) : (s.append row).row.Is (acc ++ pairs) := by
  refine ⟨?_, ?_⟩
  · rw [map_append, ← hs.1, ← hrow.1]
    rfl
  · rw [map_append, ← hs.2, ← hrow.2]
    rfl

/-- The check of the first pull is that shards share at most a boundary row. -/
lemma sharesBoundaryOnly_of_check {manifest : CsrShardManifest} (hadmitted : manifest.Admitted)
    (h : CsrRowCursor.sharesBoundaries manifest = true) :
    SharesBoundaryOnly manifest.shards := by
  simp only [CsrRowCursor.sharesBoundaries, decide_eq_true_eq] at h
  have hordered := hadmitted.ordered
  unfold SharesBoundaryOnly
  generalize manifest.shards = shards at h hordered
  induction shards with
  | nil => exact .nil
  | cons a shards ih =>
    have htail := pairwise_cons.mp hordered
    refine pairwise_cons.mpr ⟨?_, ih h.of_cons htail.2⟩
    cases shards with
    | nil => simp
    | cons b shards =>
      -- later shards start no earlier than the next one
      have hnext := (isChain_cons_cons.mp h).1
      intro r hr
      rcases mem_cons.mp hr with rfl | hr
      · omega
      · have := (pairwise_cons.mp htail.2).1 r hr
        omega

namespace CsrRowCursor

variable {read : CsrShardRecord → Except GfError CsrIndex} {manifest : CsrShardManifest}

/-! ## The invariant -/

/-- The shard is loaded, the first of those from position `next` on come after it, and
its rows before `node` have been returned. -/
structure LoadedAt (manifest : CsrShardManifest) (node next : ℕ) (s : LoadedShard) : Prop where
  le : s.nextLocal ≤ s.nodeCount
  ahead : s.nextLocal < s.nodeCount → node ≤ s.firstNode + s.nextLocal
  within : s.firstNode + s.nodeCount ≤ manifest.nodeCount
  later : ∀ r ∈ manifest.shards.drop next, s.firstNode + s.nodeCount ≤ r.firstNode + 1
  continues : s.continuesNext = true ↔
    ∃ r, manifest.shards[next]? = some r ∧ r.firstNode < s.firstNode + s.nodeCount

/-- What the loaded shard has left of a row. -/
def loadedRow : Option LoadedShard → ℕ → List (ℕ × ℕ)
  | none, _ => []
  | some s, node =>
    if s.firstNode + s.nextLocal ≤ node ∧ node < s.firstNode + s.nodeCount then
      (s.csr.row (node - s.firstNode)).iter
    else []

/-- The row put aside goes on in a shard that starts at its node. -/
def GoesOn (manifest : CsrShardManifest) (node next : ℕ) : Option LoadedShard → Prop
  | none => ∃ r, manifest.shards[next]? = some r ∧ r.firstNode = node
  | some s => (s.nextLocal = s.nodeCount ∧
      ∃ r, manifest.shards[next]? = some r ∧ r.firstNode = node) ∨
    (s.nextLocal = 0 ∧ 0 < s.nodeCount ∧ s.firstNode = node)

/-- The cursor has returned the rows before `node`; of the others it owes the entries
`acc`, put aside for `node`, then the rest of the loaded shard, then the shards ahead. -/
structure Pending (read : CsrShardRecord → Except GfError CsrIndex) (manifest : CsrShardManifest)
    (node : ℕ) (acc : List (ℕ × ℕ)) (c : CsrRowCursor) : Prop where
  nextNode : c.nextNode = node
  loaded : ∀ r ∈ manifest.shards.take c.nextShard, ∃ csr, read r = .ok csr
  ahead : ∀ r ∈ manifest.shards.drop c.nextShard, node ≤ r.firstNode
  shard : ∀ s, c.shard = some s → LoadedAt manifest node c.nextShard s
  rows : ∀ n, node ≤ n → shardRow (contentsOf read) manifest.shards n =
    (if n = node then acc else []) ++ loadedRow c.shard n ++
      shardRow (contentsOf read) (manifest.shards.drop c.nextShard) n
  spanning : (c.spanning = .finish ∧ acc = []) ∨
    (c.spanning.node = some node ∧ c.spanning.row.Is acc ∧ GoesOn manifest node c.nextShard c.shard)

/-- The passes the loop can still make before it returns. -/
def passesLeft (manifest : CsrShardManifest) (c : CsrRowCursor) : ℕ :=
  3 * (manifest.shards.length - c.nextShard) + match c.shard with
    | none => 0
    | some s => if s.nextLocal = s.nodeCount then 1 else 2

/-- How a pull at `node` may end. -/
def Ends (read : CsrShardRecord → Except GfError CsrIndex) (manifest : CsrShardManifest)
    (node : ℕ) : Except GfError CursorStep × CsrRowCursor → Prop
  | (.error e, _) => ∃ r ∈ manifest.shards, read r = .error e
  | (.ok .done, c) => manifest.nodeCount ≤ node ∧ manifest.shards.length ≤ c.nextShard ∧
      Pending read manifest node [] c
  | (.ok (.empty n), c) => n = node ∧ node < manifest.nodeCount ∧
      shardRow (contentsOf read) manifest.shards node = [] ∧ Pending read manifest (node + 1) [] c
  | (.ok (.shard n i), c) => n = node ∧ node < manifest.nodeCount ∧ (∃ s, c.shard = some s ∧
        (s.csr.row i).iter = shardRow (contentsOf read) manifest.shards node) ∧
      Pending read manifest (node + 1) [] c
  | (.ok (.spanning n), c) => n = node ∧ node < manifest.nodeCount ∧
      c.spanning.row.Is (shardRow (contentsOf read) manifest.shards node) ∧
      Pending read manifest (node + 1) [] { c with spanning := .finish }

/-- How one pass at `node` may go: it returns, or it leaves fewer passes. -/
def Passes (read : CsrShardRecord → Except GfError CsrIndex) (manifest : CsrShardManifest)
    (node : ℕ) (c : CsrRowCursor) : CursorPass × CsrRowCursor → Prop
  | (.returns outcome, c') => c'.failed = c.failed ∧ c'.releaseSpanning = c.releaseSpanning ∧
      Ends read manifest node (outcome, c')
  | (.again, c') => c'.failed = c.failed ∧ c'.releaseSpanning = c.releaseSpanning ∧
      (∃ acc, Pending read manifest node acc c') ∧ passesLeft manifest c' < passesLeft manifest c

/-- No shard that starts after a node covers it. -/
lemma shardRow_eq_nil_of_lt {contents : CsrShardRecord → CsrIndex} {shards : List CsrShardRecord}
    {node : ℕ} (h : ∀ r ∈ shards, node < r.firstNode) : shardRow contents shards node = [] := by
  have hnone : shards.filter (·.covers node) = [] := by
    apply filter_eq_nil_iff.mpr
    intro r hr
    have := h r hr
    simp only [CsrShardRecord.covers, decide_eq_true_eq]
    omega
  rw [shardRow, hnone, flatMap_nil]

/-! ## One pass of the loop -/

section
variable {node : ℕ} {acc : List (ℕ × ℕ)} {c : CsrRowCursor}

lemma Pending.pass_end (h : Pending read manifest node acc c) (hshard : c.shard = none)
    (hend : manifest.shards[c.nextShard]? = none) :
    Passes read manifest node c (pass read manifest c) := by
  have hlen : manifest.shards.length ≤ c.nextShard := List.getElem?_eq_none_iff.mp hend
  have hdrop : manifest.shards.drop c.nextShard = [] := drop_eq_nil_of_le hlen
  obtain ⟨hspan, rfl⟩ : c.spanning = .finish ∧ acc = [] := by
    rcases h.spanning with hspan | ⟨_, _, hgoes⟩
    · exact hspan
    · rw [hshard] at hgoes
      obtain ⟨r, hr, _⟩ := hgoes
      rw [hend] at hr
      cases hr
  unfold pass
  rw [hshard, hend]
  simp only [h.nextNode]
  by_cases hnode : node < manifest.nodeCount
  · rw [if_pos hnode]
    refine ⟨rfl, rfl, rfl, hnode, ?_, ?_⟩
    · rw [h.rows node (Nat.le_refl _), hshard, hdrop]
      simp [loadedRow, shardRow]
    · exact {
        nextNode := rfl
        loaded := h.loaded
        ahead := by rw [hdrop]; simp
        shard := by simp
        rows := by
          intro n hn
          rw [h.rows n (by omega), hshard]
          simp only [ite_self]
        spanning := .inl ⟨hspan, rfl⟩ }
  · rw [if_neg hnode]
    exact ⟨rfl, rfl, by omega, hlen, h⟩

lemma Pending.pass_load (hadmitted : manifest.Admitted)
    (hshare : SharesBoundaryOnly manifest.shards) (h : Pending read manifest node acc c)
    (hshard : c.shard = none) {record : CsrShardRecord}
    (hrecord : manifest.shards[c.nextShard]? = some record) :
    Passes read manifest node c (pass read manifest c) := by
  obtain ⟨hlt, hget⟩ := List.getElem?_eq_some_iff.mp hrecord
  have hmem : record ∈ manifest.shards := hget ▸ getElem_mem hlt
  have hdrop : manifest.shards.drop c.nextShard =
      record :: manifest.shards.drop (c.nextShard + 1) := by
    rw [drop_eq_getElem_cons hlt, hget]
  have hlater : ∀ r ∈ manifest.shards.drop (c.nextShard + 1),
      record.firstNode + record.nodeCount ≤ r.firstNode + 1 := by
    have := Pairwise.drop hshare (i := c.nextShard)
    rw [hdrop] at this
    exact (pairwise_cons.mp this).1
  have hpos := hadmitted.nonempty record hmem
  unfold pass
  rw [hshard, hrecord]
  simp only [load]
  cases hread : read record with
  | error e => exact ⟨rfl, rfl, record, hmem, hread⟩
  | ok csr =>
    refine ⟨rfl, rfl, ⟨acc, ?_⟩, ?_⟩
    · exact {
        nextNode := h.nextNode
        loaded := by
          intro r hr
          rw [take_add_one, hrecord] at hr
          rcases mem_append.mp hr with hr | hr
          · exact h.loaded r hr
          · obtain rfl : r = record := by simpa using hr
            exact ⟨csr, hread⟩
        ahead := by
          intro r hr
          apply h.ahead
          rw [hdrop]
          exact mem_cons_of_mem _ hr
        shard := by
          intro s hs
          obtain rfl := Option.some.inj hs
          exact {
            le := Nat.zero_le _
            ahead := fun _ => h.ahead record (by rw [hdrop]; exact mem_cons_self)
            within := hadmitted.within record hmem
            later := hlater
            continues := by
              simp only [Option.any_eq_true, decide_eq_true_eq]
              constructor
              · rintro ⟨r, hr, hle⟩
                exact ⟨r, hr, by omega⟩
              · rintro ⟨r, hr, hlt⟩
                exact ⟨r, hr, by omega⟩ }
        rows := by
          intro n hn
          have hcontents : contentsOf read record = csr := by rw [contentsOf, hread]
          rw [h.rows n hn, hshard, hdrop]
          simp only [shardRow, loadedRow, append_nil, Nat.add_zero, append_assoc]
          by_cases hcovers : record.firstNode ≤ n ∧ n < record.firstNode + record.nodeCount
          · rw [if_pos hcovers, filter_cons_of_pos (by simpa [CsrShardRecord.covers] using hcovers),
              flatMap_cons, hcontents]
          · rw [if_neg hcovers, filter_cons_of_neg (by simpa [CsrShardRecord.covers] using hcovers),
              nil_append]
        spanning := by
          rcases h.spanning with hspan | ⟨hspan, hacc, hgoes⟩
          · exact .inl hspan
          refine .inr ⟨hspan, hacc, .inr ⟨rfl, hpos, ?_⟩⟩
          rw [hshard] at hgoes
          obtain ⟨r, hr, hfirst⟩ := hgoes
          rw [hrecord] at hr
          cases hr
          exact hfirst }
    · simp only [passesLeft, hshard, Nat.ne_of_lt hpos, if_false]
      omega

section
variable {s : LoadedShard} (h : Pending read manifest node acc c) (hshard : c.shard = some s)
include h hshard

lemma Pending.pass_drop (hend : s.nextLocal = s.nodeCount) :
    Passes read manifest node c (pass read manifest c) := by
  unfold pass
  rw [hshard]
  simp only [if_pos hend]
  refine ⟨rfl, rfl, ⟨acc, ?_⟩, ?_⟩
  · exact {
      nextNode := h.nextNode
      loaded := h.loaded
      ahead := h.ahead
      shard := by simp
      rows := by
        intro n hn
        have hnone : loadedRow (some s) n = [] := if_neg (by omega)
        rw [h.rows n hn, hshard, hnone]
        rfl
      spanning := by
        rcases h.spanning with hspan | ⟨hspan, hacc, hgoes⟩
        · exact .inl hspan
        · refine .inr ⟨hspan, hacc, ?_⟩
          rw [hshard] at hgoes
          rcases hgoes with hgoes | ⟨hzero, hpos, _⟩
          · exact hgoes.2
          · omega }
  · simp only [passesLeft, hshard, if_pos hend]
    omega

lemma Pending.pass_gap (hleft : s.nextLocal ≠ s.nodeCount) (hgap : node < s.firstNode + s.nextLocal) :
    Passes read manifest node c (pass read manifest c) := by
  have hloaded := h.shard s hshard
  have hle := hloaded.le
  have hwithin := hloaded.within
  obtain ⟨hspan, rfl⟩ : c.spanning = .finish ∧ acc = [] := by
    rcases h.spanning with hspan | ⟨_, _, hgoes⟩
    · exact hspan
    · rw [hshard] at hgoes
      rcases hgoes with ⟨hend, _⟩ | ⟨hzero, _, hfirst⟩ <;> omega
  have hahead : ∀ r ∈ manifest.shards.drop c.nextShard, node < r.firstNode := by
    intro r hr
    have := hloaded.later r hr
    omega
  unfold pass
  rw [hshard]
  simp only [if_neg hleft, h.nextNode, if_pos hgap]
  refine ⟨rfl, rfl, rfl, by omega, ?_, ?_⟩
  · have hnone : loadedRow (some s) node = [] := if_neg (by omega)
    rw [h.rows node (Nat.le_refl _), hshard, hnone, shardRow_eq_nil_of_lt hahead]
    simp
  · exact {
      nextNode := rfl
      loaded := h.loaded
      ahead := hahead
      shard := by
        intro t ht
        obtain rfl := Option.some.inj ht
        exact { hloaded with ahead := fun _ => hgap }
      rows := by
        intro n hn
        rw [h.rows n (by omega), hshard]
        simp only [ite_self]
      spanning := .inl ⟨hspan, rfl⟩ }

variable (hnode : s.firstNode + s.nextLocal = node)
include hnode

/-- What is left of the later rows once the loaded shard's next row is taken. -/
private lemma Pending.rows_take {n : ℕ} (hn : node < n) :
    shardRow (contentsOf read) manifest.shards n =
      loadedRow (some { s with nextLocal := s.nextLocal + 1 }) n ++
        shardRow (contentsOf read) (manifest.shards.drop c.nextShard) n := by
  rw [h.rows n (by omega), if_neg (by omega), hshard, nil_append]
  congr 1
  simp only [loadedRow]
  congr 1
  simp only [eq_iff_iff]
  omega

variable (hleft : s.nextLocal < s.nodeCount)
include hleft

omit h hshard in
private lemma loadedRow_next : loadedRow (some s) node = (s.csr.row s.nextLocal).iter := by
  rw [loadedRow, if_pos (by omega), ← hnode, Nat.add_sub_cancel_left]

/-- The row of `node` ends with the loaded shard's next row, and is returned. -/
private lemma Pending.take_last (hadmitted : manifest.Admitted)
    (hlast : ¬(s.continuesNext = true ∧ s.nextLocal + 1 = s.nodeCount)) :
    shardRow (contentsOf read) manifest.shards node = acc ++ (s.csr.row s.nextLocal).iter ∧
    Pending read manifest (node + 1) [] { c with
      shard := some { s with nextLocal := s.nextLocal + 1 }
      spanning := .finish
      nextNode := node + 1 } := by
  have hloaded := h.shard s hshard
  -- the shards ahead start after `node`
  have hahead : ∀ r ∈ manifest.shards.drop c.nextShard, node < r.firstNode := by
    by_cases hmore : s.nextLocal + 1 = s.nodeCount
    · have hstop : ¬∃ r, manifest.shards[c.nextShard]? = some r ∧
          r.firstNode < s.firstNode + s.nodeCount :=
        fun hex => hlast ⟨hloaded.continues.mpr hex, hmore⟩
      have hordered := Pairwise.drop hadmitted.ordered (i := c.nextShard)
      intro r hr
      cases hdrop : manifest.shards.drop c.nextShard with
      | nil => simp [hdrop] at hr
      | cons b rest =>
        have hb : manifest.shards[c.nextShard]? = some b := by
          rw [← head?_drop, hdrop, head?_cons]
        have hbfirst : ¬b.firstNode < s.firstNode + s.nodeCount := fun hlt => hstop ⟨b, hb, hlt⟩
        rw [hdrop] at hr hordered
        rcases mem_cons.mp hr with rfl | hr
        · omega
        · have := (pairwise_cons.mp hordered).1 r hr
          omega
    · intro r hr
      have := hloaded.later r hr
      omega
  refine ⟨?_, ?_⟩
  · rw [h.rows node (Nat.le_refl _), hshard, loadedRow_next hnode hleft,
      shardRow_eq_nil_of_lt hahead, if_pos rfl, append_nil]
  · exact {
      nextNode := rfl
      loaded := h.loaded
      ahead := hahead
      shard := by
        intro t ht
        obtain rfl := Option.some.inj ht
        exact { hloaded with
          le := hleft
          ahead := fun _ => by show node + 1 ≤ s.firstNode + (s.nextLocal + 1); omega }
      rows := by
        intro n hn
        rw [h.rows_take hshard hnode hn]
        simp only [ite_self, nil_append]
      spanning := .inl ⟨rfl, rfl⟩ }

/-- The row of `node` goes on in the next shard, and is put aside. -/
private lemma Pending.take_deferred
    (hcontinues : s.continuesNext = true) (hlast : s.nextLocal + 1 = s.nodeCount)
    (spanning : SpanningRow) (hspan : spanning.node = some node)
    (hacc : spanning.row.Is (acc ++ (s.csr.row s.nextLocal).iter)) :
    Pending read manifest node (acc ++ (s.csr.row s.nextLocal).iter) { c with
      shard := some { s with nextLocal := s.nextLocal + 1 }
      spanning := spanning } ∧
    passesLeft manifest { c with
      shard := some { s with nextLocal := s.nextLocal + 1 }
      spanning := spanning } < passesLeft manifest c := by
  have hloaded := h.shard s hshard
  refine ⟨?_, ?_⟩
  · exact {
      nextNode := h.nextNode
      loaded := h.loaded
      ahead := h.ahead
      shard := by
        intro t ht
        obtain rfl := Option.some.inj ht
        exact { hloaded with
          le := hleft
          ahead := fun _ => by show node ≤ s.firstNode + (s.nextLocal + 1); omega }
      rows := by
        intro n hn
        by_cases hsame : n = node
        · subst hsame
          have hnone : loadedRow (some { s with nextLocal := s.nextLocal + 1 }) n = [] :=
            if_neg (by simp only; omega)
          rw [h.rows n hn, hshard, loadedRow_next hnode hleft, hnone, if_pos rfl, if_pos rfl,
            append_nil]
        · rw [h.rows_take hshard hnode (by omega), if_neg hsame, nil_append]
      spanning := by
        refine .inr ⟨hspan, hacc, .inl ⟨hlast, ?_⟩⟩
        obtain ⟨r, hr, hlt⟩ := hloaded.continues.mp hcontinues
        have hmem : r ∈ manifest.shards.drop c.nextShard := by
          apply mem_of_mem_head?
          rw [head?_drop, hr]
          rfl
        have := hloaded.later r hmem
        exact ⟨r, hr, by omega⟩ }
  · simp only [passesLeft, hshard, if_pos hlast, if_neg (Nat.ne_of_lt hleft)]
    omega

lemma Pending.pass_take (hadmitted : manifest.Admitted) :
    Passes read manifest node c (pass read manifest c) := by
  have hrow := CsrRow.is_iter_row s.csr s.nextLocal
  have hinside : node < manifest.nodeCount := by
    have := (h.shard s hshard).within
    omega
  have hnext : ¬c.nextNode < node := by rw [h.nextNode]; omega
  unfold pass
  rw [hshard]
  simp only [if_neg (Nat.ne_of_lt hleft), hnode, if_neg hnext]
  by_cases hlast : s.continuesNext = true ∧ s.nextLocal + 1 = s.nodeCount
  · have hdefers : (s.continuesNext && decide (s.nextLocal + 1 = s.nodeCount)) = true := by
      simpa using hlast
    rcases h.spanning with ⟨hspan, rfl⟩ | ⟨hspan, hacc, _⟩
    · have hstart := h.take_deferred hshard hnode hleft hlast.1 hlast.2
        (c.spanning.start node (s.csr.row s.nextLocal)) rfl
        (SpanningRow.is_append (by rw [hspan]; exact ⟨rfl, rfl⟩) hrow)
      rw [if_neg (by simp [hspan, SpanningRow.finish]), if_pos hdefers]
      exact ⟨rfl, rfl, ⟨_, hstart.1⟩, hstart.2⟩
    · have hjoin := h.take_deferred hshard hnode hleft hlast.1 hlast.2
        (c.spanning.append (s.csr.row s.nextLocal)) hspan (SpanningRow.is_append hacc hrow)
      rw [if_pos hspan, if_pos hdefers]
      exact ⟨rfl, rfl, ⟨_, hjoin.1⟩, hjoin.2⟩
  · have hdefers : ¬(s.continuesNext && decide (s.nextLocal + 1 = s.nodeCount)) = true := by
      simpa using hlast
    obtain ⟨hwhole, hpending⟩ := h.take_last hshard hnode hleft hadmitted hlast
    rcases h.spanning with ⟨hspan, rfl⟩ | ⟨hspan, hacc, _⟩
    · rw [if_neg (by simp [hspan, SpanningRow.finish]), if_neg hdefers]
      refine ⟨rfl, rfl, rfl, hinside, ⟨_, rfl, ?_⟩, ?_⟩
      · rw [hwhole, nil_append]
      · rw [← hspan] at hpending
        exact hpending
    · rw [if_pos hspan, if_neg hdefers]
      refine ⟨rfl, rfl, rfl, hinside, ?_, hpending⟩
      rw [hwhole]
      exact SpanningRow.is_append hacc hrow

end

/-! ## The loop, and one pull -/

section
variable (h : Pending read manifest node acc c) (hadmitted : manifest.Admitted)
  (hshare : SharesBoundaryOnly manifest.shards)
include h hadmitted hshare

lemma Pending.pass : Passes read manifest node c (c.pass read manifest) := by
  cases hshard : c.shard with
  | none =>
    cases hrecord : manifest.shards[c.nextShard]? with
    | none => exact h.pass_end hshard hrecord
    | some record => exact h.pass_load hadmitted hshare hshard hrecord
  | some s =>
    have hloaded := h.shard s hshard
    have hle := hloaded.le
    by_cases hend : s.nextLocal = s.nodeCount
    · exact h.pass_drop hshard hend
    · have hahead := hloaded.ahead (by omega)
      by_cases hgap : node < s.firstNode + s.nextLocal
      · exact h.pass_gap hshard hend hgap
      · exact h.pass_take hshard (by omega) (by omega) hadmitted

/-- The loop ends before its passes run out. -/
lemma Pending.advance {fuel : ℕ} (hfuel : passesLeft manifest c < fuel) :
    Ends read manifest node (c.advance read manifest fuel) ∧
      (c.advance read manifest fuel).2.failed = c.failed ∧
      (c.advance read manifest fuel).2.releaseSpanning = c.releaseSpanning := by
  induction fuel generalizing c acc with
  | zero => omega
  | succ fuel ih =>
    have hpass := h.pass hadmitted hshare
    unfold CsrRowCursor.advance
    match c.pass read manifest, hpass with
    | (.returns outcome, c'), ⟨hfailed, hrelease, hends⟩ => exact ⟨hends, hfailed, hrelease⟩
    | (.again, c'), ⟨hfailed, hrelease, ⟨acc', hpending⟩, hless⟩ =>
      have := ih hpending (by omega)
      rw [hfailed, hrelease] at this
      exact this

end

/-- Between two pulls: no error so far, and nothing put aside once the row returned last
is released. -/
structure Ready (read : CsrShardRecord → Except GfError CsrIndex) (manifest : CsrShardManifest)
    (node : ℕ) (c : CsrRowCursor) : Prop where
  failed : c.failed = none
  pending : Pending read manifest node [] { c with
    checked := true
    spanning := if c.releaseSpanning then .finish else c.spanning
    releaseSpanning := false }

lemma ready_new (manifest : CsrShardManifest) : Ready read manifest 0 new where
  failed := rfl
  pending := {
    nextNode := rfl
    loaded := by simp [new]
    ahead := fun _ _ => Nat.zero_le _
    shard := by simp [new]
    rows := by simp [new, loadedRow]
    spanning := .inl ⟨rfl, rfl⟩ }

section
variable (hadmitted : manifest.Admitted) (hcheck : sharesBoundaries manifest = true)
include hadmitted hcheck

/-- One pull: a shard cannot be read, or the row of the next node is returned, or all
have been. -/
lemma Ready.nextRow (h : Ready read manifest node c) :
    (∃ e, (c.nextRow read manifest).1 = .error e ∧
      ∃ r ∈ manifest.shards, read r = .error e) ∨
    (manifest.nodeCount ≤ node ∧ (c.nextRow read manifest).1 = .ok none ∧
      Ready read manifest node (c.nextRow read manifest).2 ∧
      ∀ r ∈ manifest.shards, ∃ csr, read r = .ok csr) ∨
    (node < manifest.nodeCount ∧ ∃ row, (c.nextRow read manifest).1 =
        .ok (some (node, row)) ∧
      row.Is (shardRow (contentsOf read) manifest.shards node) ∧
      Ready read manifest (node + 1) (c.nextRow read manifest).2) := by
  have hpending := h.pending
  set start : CsrRowCursor := { c with
    checked := true
    spanning := if c.releaseSpanning then .finish else c.spanning
    releaseSpanning := false }
  have hstep : c.step read manifest =
      start.advance read manifest (3 * manifest.shards.length + 3) := by
    unfold CsrRowCursor.step
    rw [if_neg (by simp [hcheck])]
    cases hrelease : c.releaseSpanning <;> simp [start, hrelease]
  have hfuel : passesLeft manifest start < 3 * manifest.shards.length + 3 := by
    unfold passesLeft
    simp only [start]
    split
    · omega
    · split <;> omega
  obtain ⟨hends, hfailed, hrelease⟩ :=
    hpending.advance hadmitted (sharesBoundaryOnly_of_check hadmitted hcheck) hfuel
  -- a cursor that is pending with nothing to release is ready
  have hready {n : ℕ} {c' : CsrRowCursor} (hc' : c'.failed = none) (hr : c'.releaseSpanning = false)
      (hp : Pending read manifest n [] c') : Ready read manifest n c' := by
    refine ⟨hc', ?_⟩
    rw [hr]
    exact { hp with }
  unfold CsrRowCursor.nextRow
  rw [h.failed]
  rw [hstep]
  generalize CsrRowCursor.advance read manifest _ _ = result at hends hfailed hrelease
  obtain ⟨outcome, c'⟩ := result
  simp only [start, h.failed] at hfailed hrelease
  match outcome, hends with
  | .error e, hends => exact .inl ⟨e, rfl, hends⟩
  | .ok .done, ⟨hnode, hall, hp⟩ =>
    refine .inr (.inl ⟨hnode, rfl, hready hfailed hrelease hp, ?_⟩)
    intro r hr
    apply hp.loaded
    rwa [take_of_length_le hall]
  | .ok (.empty n), ⟨hn, hnode, hrow, hp⟩ =>
    refine .inr (.inr ⟨hnode, .empty, by rw [hn], ?_, hready hfailed hrelease hp⟩)
    rw [hrow]
    exact ⟨rfl, rfl⟩
  | .ok (.shard n i), ⟨hn, hnode, ⟨s, hs, hrow⟩, hp⟩ =>
    refine .inr (.inr ⟨hnode, s.csr.row i, by simp only [hs, hn], ?_, ?_⟩)
    · rw [← hrow]
      exact CsrRow.is_iter_row _ _
    · simp only [hs]
      exact hready hfailed hrelease hp
  | .ok (.spanning n), ⟨hn, hnode, hrow, hp⟩ =>
    refine .inr (.inr ⟨hnode, c'.spanning.row, by rw [hn], hrow, ⟨hfailed, ?_⟩⟩)
    exact { hp with }

/-! ## Whole runs -/

/-- A run that meets no error: after `n` pulls the cursor is ready for node `n`, or for
none once all have been returned. -/
lemma ready_after (hpull : ∀ n e, pull read manifest n ≠ .error e) (n : ℕ) :
    Ready read manifest (min n manifest.nodeCount) (after read manifest n) := by
  induction n with
  | zero =>
    exact ready_new manifest
  | succ n ih =>
    rcases ih.nextRow hadmitted hcheck with ⟨e, he, _⟩ | ⟨hnode, _, hready, _⟩ | ⟨hnode, _, _, _, hready⟩
    · exact absurd he (hpull n e)
    · rw [show min (n + 1) manifest.nodeCount = min n manifest.nodeCount by omega]
      exact hready
    · rw [show min (n + 1) manifest.nodeCount = min n manifest.nodeCount + 1 by omega]
      exact hready

end

/-- A manifest with wider overlaps is refused at the first pull. -/
lemma sharesBoundaries_of_pull (hpull : ∀ e, pull read manifest 0 ≠ .error e) :
    sharesBoundaries manifest = true := by
  by_contra hcheck
  apply hpull (corruptIndex "CSR shards overlap beyond a shared boundary row")
  have hstep : step read manifest new =
      (.error (corruptIndex "CSR shards overlap beyond a shared boundary row"), new) :=
    if_pos ⟨rfl, by simpa using hcheck⟩
  rw [pull, after, CsrRowCursor.nextRow, hstep]
  rfl

/-- The cursor refuses nothing when shards share at most boundary rows and can be read. -/
theorem pull_ne_error (hadmitted : manifest.Admitted) (hcheck : sharesBoundaries manifest = true)
    (hread : ∀ r ∈ manifest.shards, ∃ csr, read r = .ok csr) (n : ℕ) (e : GfError) :
    pull read manifest n ≠ .error e := by
  have hnext : ∀ {node c}, Ready read manifest node c →
      (∃ row, (c.nextRow read manifest).1 = .ok row) ∧
        ∃ node, Ready read manifest node (c.nextRow read manifest).2 := by
    intro node c hready
    rcases hready.nextRow hadmitted hcheck with
      ⟨e, _, r, hr, he⟩ | ⟨_, hrow, h, _⟩ | ⟨_, _, hrow, _, h⟩
    · obtain ⟨csr, hcsr⟩ := hread r hr
      rw [hcsr] at he
      cases he
    · exact ⟨⟨_, hrow⟩, _, h⟩
    · exact ⟨⟨_, hrow⟩, _, h⟩
  have hready : ∃ node, Ready read manifest node (after read manifest n) := by
    induction n with
    | zero => exact ⟨0, ready_new manifest⟩
    | succ n ih => exact (hnext ih.choose_spec).2
  obtain ⟨row, hrow⟩ := (hnext hready.choose_spec).1
  rw [pull, hrow]
  exact nofun

/-- A row that is returned from the loaded shard leaves the shard loaded. -/
lemma shard_of_advance {fuel : ℕ} {c c' : CsrRowCursor} {n i : ℕ}
    (h : c.advance read manifest fuel = (.ok (.shard n i), c')) :
    ∃ s, c'.shard = some s := by
  induction fuel generalizing c with
  | zero => cases h
  | succ fuel ih =>
    unfold CsrRowCursor.advance at h
    split at h
    next c₁ hpass => exact ih h
    next outcome c₁ hpass =>
      cases h
      unfold CsrRowCursor.pass at hpass
      split at hpass
      next => split at hpass <;> split at hpass <;> cases hpass
      next s hs =>
        split at hpass
        · cases hpass
        simp only at hpass
        split at hpass
        · cases hpass
        split at hpass
        · split at hpass <;> cases hpass
        · split at hpass
          · cases hpass
          · cases hpass
            exact ⟨_, rfl⟩

/-- An error is final, whatever the files say later. -/
lemma nextRow_of_error {c c' : CsrRowCursor} {e : GfError}
    (h : c.nextRow read manifest = (.error e, c'))
    (read' : CsrShardRecord → Except GfError CsrIndex) :
    c'.nextRow read' manifest = (.error e, c') := by
  have hfailed : c'.failed = some e := by
    unfold CsrRowCursor.nextRow at h
    split at h
    next error herror =>
      cases h
      exact herror
    next =>
      split at h
      next => cases h; rfl
      next => cases h
      next => cases h
      next => cases h
      next node i c₁ hstep =>
        -- the row of a loaded shard is never an error
        unfold CsrRowCursor.step at hstep
        split at hstep
        · cases hstep
        · obtain ⟨s, hs⟩ := shard_of_advance hstep
          rw [hs] at h
          cases h
  unfold CsrRowCursor.nextRow
  rw [hfailed]

end

/-- The sequential cursor agrees with random access. For every manifest that opening
accepts, if no pull is refused, the cursor returns the nodes `0 .. nodeCount` in order,
each with the row that `ShardedCsrIndex::row` returns from any coherent cache, and then
nothing. And after any error, whatever the files hold later, every pull returns it. -/
theorem pull_eq_row (codec : ShardCodec) {dir : Directory} {path : String}
    {manifest : CsrShardManifest} {owner : ℕ} {index : ShardedCsrIndex}
    (hopen : openShardSet dir path manifest owner = .ok index) :
    ((∀ n e, pull (readAuthenticatedShard codec dir) manifest n ≠ .error e) →
      (∀ node < manifest.nodeCount, ∃ row pairs,
        pull (readAuthenticatedShard codec dir) manifest node = .ok (some (node, row)) ∧
        row.Is pairs ∧
        Gives (index.Coherent (readAuthenticatedShard codec dir))
          (index.row (fetchCached (readAuthenticatedShard codec dir) index.owner) node)
          (.ok pairs)) ∧
      ∀ n, manifest.nodeCount ≤ n → pull (readAuthenticatedShard codec dir) manifest n = .ok none) ∧
    ∀ (read read' : CsrShardRecord → Except GfError CsrIndex) (c c' : CsrRowCursor) (e : GfError),
      nextRow read manifest c = (.error e, c') → nextRow read' manifest c' = (.error e, c') := by
  refine ⟨?_, fun read read' c c' e h => nextRow_of_error h read'⟩
  intro hpull
  obtain ⟨rfl, hadmitted⟩ := admitted_of_openShardSet hopen
  have hcheck := sharesBoundaries_of_pull (hpull 0)
  have hready := ready_after hadmitted hcheck hpull
  -- the pull after the last node shows that every shard was read
  have hread : ∀ r ∈ manifest.shards, readAuthenticatedShard codec dir r =
      .ok (contentsOf (readAuthenticatedShard codec dir) r) := by
    have hlast := hready manifest.nodeCount
    rcases hlast.nextRow hadmitted hcheck with ⟨e, he, _⟩ | ⟨_, _, _, hall⟩ | ⟨hlt, _⟩
    · exact absurd he (hpull _ e)
    · exact fun r hr => read_eq_contentsOf (hall r hr)
    · omega
  refine ⟨?_, ?_⟩
  · intro node hnode
    have hnext := hready node
    rw [Nat.min_eq_left hnode.le] at hnext
    rcases hnext.nextRow hadmitted hcheck with ⟨e, he, _⟩ | ⟨hge, _⟩ | ⟨_, row, hrow, hpairs, _⟩
    · exact absurd he (hpull _ e)
    · omega
    · exact ⟨row, _, hrow, hpairs, ShardedCsrIndex.gives_shardRow hadmitted
        (sharesBoundaryOnly_of_check hadmitted hcheck) hread
        (fun r hr s hs => readAuthenticatedShard_congr (hread r hr) (hread s hs)) node⟩
  · intro n hn
    have hnext := hready n
    rcases hnext.nextRow hadmitted hcheck with ⟨e, he, _⟩ | ⟨_, hnone, _⟩ | ⟨hlt, _⟩
    · exact absurd he (hpull _ e)
    · exact hnone
    · omega

/-- Row `1` continues from the first shard into the second; no shard covers `0` and `3`. -/
theorem pull_eq_row_spanning :
    let codec := wordCodec Xxh64.hash sha256
    let first : CsrIndex := ⟨[0, 1], [4], [7]⟩
    let second : CsrIndex := ⟨[0, 1, 2], [5, 6], [8, 9]⟩
    let manifest : CsrShardManifest := ⟨"graphforge.csr-shards", shardedCsrVersion, 4, 3,
      ['o', 'u', 't', '.', 'd'], [shardRecord codec 0 1 first, shardRecord codec 1 1 second]⟩
    let dir : Directory := fun file =>
      .ok (codec.encode (if file = shardFileName 0 then first else second))
    let index : ShardedCsrIndex := ⟨manifest, 0⟩
    pull (readAuthenticatedShard codec dir) manifest 1 = .ok (some (1, ⟨[4, 5], [7, 8]⟩)) ∧
      ∃ row pairs, pull (readAuthenticatedShard codec dir) manifest 1 = .ok (some (1, row)) ∧
        row.Is pairs ∧
        Gives (index.Coherent (readAuthenticatedShard codec dir))
          (index.row (fetchCached (readAuthenticatedShard codec dir) 0) 1) (.ok pairs) := by
  intro codec first second manifest dir index
  have hopen : openShardSet dir "out.json" manifest 0 = .ok index := by decide +kernel
  have hread : ∀ r ∈ manifest.shards, ∃ csr, readAuthenticatedShard codec dir r = .ok csr := by
    intro r hr
    rcases mem_cons.mp hr with rfl | hr
    · exact ⟨first, by decide +kernel⟩
    · obtain rfl := mem_singleton.mp hr
      exact ⟨second, by decide +kernel⟩
  have hpull := pull_ne_error (admitted_of_openShardSet hopen).2 (by decide +kernel) hread
  have hrows := ((pull_eq_row codec hopen).1 hpull).1 1 (by decide)
  exact ⟨by decide +kernel, hrows⟩

end CsrRowCursor

end GraphForge.Adjacency
