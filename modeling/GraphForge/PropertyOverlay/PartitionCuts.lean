import GraphForge.PropertyOverlay.StreamingMergeTheorems

/-!
# Partitioned scans of a route

A scan splits the UUID space at cut points into half-open intervals, one per partition,
and merges every partition by itself. The cuts are found by bisection on an estimate of
how many rows lie below a key. Whatever the estimate, the cuts ascend strictly, so every
UUID lies in exactly one interval (`inInterval_partitionInterval_iff`), and the partitions
put together are the whole route.
-/

namespace GraphForge.PropertyOverlay

open List

open Except (Ends)
open OverlayError (IsByteLimit)

/-! ## Placing the cuts -/

/-- The bisection over `u128` keys: narrow `low..=high` towards the smallest key that
reaches the target. -/
def bisect (reaches : ℕ → Bool) : ℕ → ℕ → ℕ → ℕ
  | 0, low, _ => low
  | fuel + 1, low, high =>
    if low < high then
      let middle := low + (high - low) / 2
      if reaches middle then bisect reaches fuel low middle
      else bisect reaches fuel (middle + 1) high
    else low

variable (reaches : ℕ → Bool)

/-- The bisection over all keys; the interval halves at every step, so 128 steps close it. -/
def placeCut : ℕ := bisect reaches 128 0 (2 ^ 128 - 1)

/-- Push a cut, unless it is zero or not above the last one. -/
def pushCut (cuts : List ℕ) (low : ℕ) : List ℕ :=
  if 0 < low && cuts.getLast?.all (· < low) then cuts ++ [low] else cuts

variable {F : Type*} [LinearOrder F]

/-- Cut points for the given number of partitions. `rowsBelow` estimates the rows below a
key, `target` is the estimate a share has to reach, and `hasRows` says whether the
estimated total is positive. -/
def balancedCuts (rowsBelow target : ℕ → F) (hasRows : Bool) (partitions : ℕ) : List Uuid :=
  if partitions < 2 || !hasRows then []
  else
    let cuts := (range' 1 (partitions - 1)).foldl (fun cuts share =>
      pushCut cuts (placeCut fun key => decide (target share ≤ rowsBelow key))) []
    cuts.map (Fin.ofNat (2 ^ 128))

variable (cuts : List Uuid)

/-- Where partition `index` starts: at the cut before it, the first one at zero. -/
def lowerCut : ℕ → Uuid
  | 0 => 0
  | prior + 1 => cuts.getD prior 0

/-- The interval of partition `index`; past the last cut it is empty. -/
def partitionInterval (index : ℕ) : UuidInterval :=
  if cuts.length < index then (0, some 0) else (lowerCut cuts index, cuts[index]?)

/-! ### The bisection is exact -/

lemma bisect_bounds (fuel : ℕ) {low high : ℕ} (h : low ≤ high) :
    low ≤ bisect reaches fuel low high ∧ bisect reaches fuel low high ≤ high := by
  induction fuel generalizing low high with
  | zero => exact ⟨le_rfl, h⟩
  | succ fuel ih =>
    rw [bisect]
    split
    next hlt =>
      simp only
      split
      · have := ih (show low ≤ low + (high - low) / 2 by omega)
        omega
      · have := ih (show low + (high - low) / 2 + 1 ≤ high by omega)
        omega
    · exact ⟨le_rfl, h⟩

section
variable {reaches : ℕ → Bool} (hmono : ∀ k k', k ≤ k' → reaches k = true → reaches k' = true)
include hmono

/-- With enough steps the bisection ends at a key that reaches the target, or at the top, and
no key from `low` on below it reaches the target. -/
lemma bisect_spec {fuel low high : ℕ} (h : low ≤ high) (hfuel : high - low < 2 ^ fuel) :
    (bisect reaches fuel low high < high → reaches (bisect reaches fuel low high) = true) ∧
    ∀ k, low ≤ k → k < bisect reaches fuel low high → reaches k = false := by
  induction fuel generalizing low high with
  | zero =>
    rw [bisect]
    exact ⟨fun hlt => by omega, fun k hk hk' => by omega⟩
  | succ fuel ih =>
    rw [bisect]
    split
    next hlt =>
      simp only
      split
      next hreach =>
        obtain ⟨htop, hbelow⟩ := ih (show low ≤ low + (high - low) / 2 by omega) (by omega)
        refine ⟨fun _ => ?_, hbelow⟩
        have hle := (bisect_bounds reaches fuel (show low ≤ low + (high - low) / 2 by omega)).2
        rcases hle.lt_or_eq with hlt' | heq
        · exact htop hlt'
        · rw [heq]
          exact hreach
      next hmiss =>
        obtain ⟨htop, hbelow⟩ := ih (show low + (high - low) / 2 + 1 ≤ high by omega) (by omega)
        refine ⟨htop, fun k hk hk' => ?_⟩
        by_cases hmid : k ≤ low + (high - low) / 2
        · by_contra hreach
          exact hmiss (hmono k _ hmid (by simpa using hreach))
        · exact hbelow k (by omega) hk'
    next hge => exact ⟨fun hlt => absurd hlt (by omega), fun k hk hk' => by omega⟩

/-- A cut is the smallest key with the target below it, or the top where no key reaches it:
the bisection has run to its end. -/
theorem placeCut_least : (placeCut reaches < 2 ^ 128 - 1 → reaches (placeCut reaches) = true) ∧
      ∀ k < placeCut reaches, reaches k = false := by
  obtain ⟨htop, hbelow⟩ := bisect_spec hmono (Nat.zero_le (2 ^ 128 - 1))
    (show 2 ^ 128 - 1 - 0 < 2 ^ 128 by norm_num)
  exact ⟨htop, fun k hk => hbelow k (Nat.zero_le k) hk⟩

end

/-- The cut of a partition that the key 7 starts. -/
theorem placeCut_least_seven :
    (placeCut (7 ≤ ·) < 2 ^ 128 - 1 → decide (7 ≤ placeCut (7 ≤ ·)) = true) ∧
      ∀ k < placeCut (7 ≤ ·), decide (7 ≤ k) = false :=
  placeCut_least (by grind)

/-! ## The cuts ascend -/

/-- The cuts pushed so far, as keys. -/
structure IsCuts (cuts : List ℕ) : Prop where
  ascending : cuts.Pairwise (· < ·)
  bounded : ∀ c ∈ cuts, 0 < c ∧ c < 2 ^ 128

lemma placeCut_lt : placeCut reaches < 2 ^ 128 := by
  have := (bisect_bounds reaches 128 (Nat.zero_le (2 ^ 128 - 1))).2
  unfold placeCut
  omega

/-- A cut is pushed only above the last one. -/
lemma IsCuts.pushCut {cuts : List ℕ} (h : IsCuts cuts) {low : ℕ} (hlow : low < 2 ^ 128) :
    IsCuts (pushCut cuts low) := by
  unfold PropertyOverlay.pushCut
  split
  next hpush =>
    rw [Bool.and_eq_true, decide_eq_true_eq] at hpush
    obtain ⟨hpos, hlast⟩ := hpush
    have habove : ∀ a ∈ cuts, a < low := by
      intro a ha
      rcases eq_nil_or_concat' cuts with rfl | ⟨init, last, rfl⟩
      · simp at ha
      · have hlt : last < low := by simpa using hlast
        rcases mem_append.mp ha with ha | ha
        · exact ((pairwise_append.mp h.ascending).2.2 a ha last (by simp)).trans hlt
        · exact mem_singleton.mp ha ▸ hlt
    refine ⟨pairwise_append.mpr ⟨h.ascending, pairwise_singleton _ _, ?_⟩, ?_⟩
    · intro a ha b hb
      rw [mem_singleton.mp hb]
      exact habove a ha
    · exact forall_mem_concat.mpr ⟨h.bounded, hpos, hlow⟩
  · exact h

lemma length_pushCut_le (cuts : List ℕ) (low : ℕ) : (pushCut cuts low).length ≤ cuts.length + 1 := by
  unfold pushCut
  split <;> simp

lemma IsCuts.foldl_pushCut {place : ℕ → ℕ} (hplace : ∀ share, place share < 2 ^ 128)
    (shares : List ℕ) {cuts : List ℕ} (h : IsCuts cuts) :
    IsCuts (shares.foldl (fun cuts share => PropertyOverlay.pushCut cuts (place share)) cuts) ∧
    (shares.foldl (fun cuts share => PropertyOverlay.pushCut cuts (place share)) cuts).length ≤
      cuts.length + shares.length := by
  induction shares generalizing cuts with
  | nil => exact ⟨h, le_rfl⟩
  | cons share shares ih =>
    obtain ⟨hcuts, hlen⟩ := ih (h.pushCut (hplace share))
    have hpush := length_pushCut_le cuts (place share)
    refine ⟨hcuts, hlen.trans ?_⟩
    rw [length_cons]
    omega

/-- Whatever the estimate, the cuts ascend strictly, none is zero, and there are fewer of
them than partitions. -/
lemma balancedCuts_spec (rowsBelow target : ℕ → F) (hasRows : Bool) {partitions : ℕ}
    (hpos : 1 ≤ partitions) :
    (balancedCuts rowsBelow target hasRows partitions).Pairwise (· < ·) ∧
    (balancedCuts rowsBelow target hasRows partitions).length < partitions := by
  unfold balancedCuts
  split
  · exact ⟨.nil, Nat.lt_of_succ_le hpos⟩
  obtain ⟨hcuts, hlen⟩ := IsCuts.foldl_pushCut
    (fun share => placeCut_lt fun key => decide (target share ≤ rowsBelow key))
    (range' 1 (partitions - 1)) ⟨.nil, by simp⟩
  have hval : ∀ c, c < 2 ^ 128 → (Fin.ofNat (2 ^ 128) c).val = c := fun c hc =>
    Nat.mod_eq_of_lt hc
  constructor
  · refine pairwise_map.mpr (hcuts.ascending.imp_of_mem fun {a b} ha hb hab => ?_)
    rw [Fin.lt_def, hval a (hcuts.bounded a ha).2, hval b (hcuts.bounded b hb).2]
    exact hab
  · rw [length_map]
    simp only [length_nil, length_range'] at hlen
    omega

/-! ## The intervals partition the UUIDs -/

/-- The partition a UUID belongs to: the number of cuts it has reached. -/
def partitionOf (uuid : Uuid) : ℕ := cuts.countP (· ≤ uuid)

lemma partitionOf_mono {u v : Uuid} (h : u ≤ v) : partitionOf cuts u ≤ partitionOf cuts v :=
  countP_mono_left fun c _ hc => by simpa using (of_decide_eq_true hc).trans h

/-- Of ascending cuts, a UUID has reached exactly the first `partitionOf`. -/
lemma cut_le_iff {cuts : List Uuid} (h : cuts.Pairwise (· < ·)) (uuid : Uuid) {j : ℕ} {c : Uuid}
    (hj : cuts[j]? = some c) : c ≤ uuid ↔ j < partitionOf cuts uuid := by
  induction cuts generalizing j with
  | nil => simp at hj
  | cons a cuts ih =>
    obtain ⟨hfirst, hrest⟩ := pairwise_cons.mp h
    rw [partitionOf, countP_cons]
    by_cases ha : a ≤ uuid
    · cases j with
      | zero =>
        obtain rfl : a = c := by simpa using hj
        simp [ha]
      | succ j => simpa [ha, partitionOf] using ih hrest (by simpa using hj)
    -- below the first cut no later one is reached either
    have hnone : cuts.countP (fun c => decide (c ≤ uuid)) = 0 := by
      refine countP_eq_zero.mpr fun c hc => ?_
      simpa using (not_le.mp ha).trans (hfirst c hc)
    have hc : uuid < c := by
      rcases mem_cons.mp (mem_of_getElem? hj) with rfl | hc
      · exact not_le.mp ha
      · exact (not_le.mp ha).trans (hfirst c hc)
    simp [hnone, ha, not_le.mpr hc]

/-- A UUID lies in exactly one interval, that of its partition. -/
lemma inInterval_partitionInterval_iff {cuts : List Uuid} (h : cuts.Pairwise (· < ·)) (index : ℕ)
    (uuid : Uuid) :
    (partitionInterval cuts index).inInterval uuid = true ↔ index = partitionOf cuts uuid := by
  have hle : partitionOf cuts uuid ≤ cuts.length := countP_le_length
  unfold partitionInterval
  split
  next hpast =>
    refine ⟨fun hin => ?_, fun heq => by omega⟩
    simp [UuidInterval.inInterval] at hin
  next hindex =>
    have hlow : lowerCut cuts index ≤ uuid ↔ index ≤ partitionOf cuts uuid := by
      cases index with
      | zero => simp [lowerCut]
      | succ prior =>
        have hlt : prior < cuts.length := by omega
        have hget := List.getElem?_eq_getElem hlt
        simp only [lowerCut, getD_eq_getElem?_getD, hget, Option.getD_some]
        exact cut_le_iff h uuid hget
    have hhigh : (cuts[index]?.all fun high => decide (uuid < high)) = true ↔
        partitionOf cuts uuid ≤ index := by
      rcases hget : cuts[index]? with _ | c
      · have := List.getElem?_eq_none_iff.mp hget
        simp only [Option.all_none, true_iff]
        omega
      · have := cut_le_iff h uuid hget
        simp only [Option.all_some, decide_eq_true_eq]
        rw [← not_le, this]
        omega
    simp only [UuidInterval.inInterval, Bool.and_eq_true, decide_eq_true_eq]
    rw [hlow, hhigh]
    omega

/-! ## Scanning by partitions -/

variable {L : Type}

/-- What partition `index` of a scan reads: its interval of the nominated UUIDs, or all of
them when there is one partition. Every partition has a budget of its own. -/
def partitionScan (read : RouteRead L) (fragments : List (StoredFragment L)) (cuts : List Uuid)
    (partitions index : ℕ) : Except OverlayError (List (PropertySnapshotRow L)) :=
  visitRouteStreaming
    { read with
      uuids :=
        if 1 < partitions then some (UuidRange (partitionInterval cuts index) read.uuids)
        else read.uuids }
    fragments

/-- The rows that a partition nominates are the nominated rows that belong to it. -/
lemma filter_partition (uuids : Option UuidMembership) {cuts : List Uuid}
    (hcuts : cuts.Pairwise (· < ·)) {partitions index : ℕ} (hlen : cuts.length < partitions)
    (hindex : index < partitions) (rows : List (PropertySnapshotRow L)) :
    rows.filter (fun row => wants (if 1 < partitions then
        some (UuidRange (partitionInterval cuts index) uuids) else uuids) row.uuid) =
      (rows.filter fun row => wants uuids row.uuid).filter
        fun row => partitionOf cuts row.uuid = index := by
  rw [filter_filter]
  refine filter_congr fun row _ => ?_
  split
  · rw [wants_uuidRange]
    congr 1
    rw [Bool.eq_iff_iff, inInterval_partitionInterval_iff hcuts, decide_eq_true_eq, eq_comm]
  next hone =>
    have hnil : cuts = [] := length_eq_zero_iff.mp (by omega)
    have hzero : index = 0 := by omega
    simp [hnil, hzero, partitionOf]

/-- Rows by ascending UUID are the rows of the first partitions followed by those of the
next one. -/
lemma flatMap_partitions {cuts : List Uuid} {rows : List (PropertySnapshotRow L)}
    (hasc : rows.Pairwise (·.uuid < ·.uuid)) {partitions : ℕ} (hlen : cuts.length < partitions) :
    (range partitions).flatMap
      (fun index => rows.filter fun row => partitionOf cuts row.uuid = index) = rows := by
  refine NewestWins.eq_of_ascending ?_ hasc fun row => ?_
  · refine pairwise_flatMap.mpr ⟨fun index _ => hasc.filter _, ?_⟩
    refine pairwise_lt_range.imp fun {i j} hij row hrow row' hrow' => ?_
    have hi : partitionOf cuts row.uuid = i := by simpa using (mem_filter.mp hrow).2
    have hj : partitionOf cuts row'.uuid = j := by simpa using (mem_filter.mp hrow').2
    by_contra hge
    have := partitionOf_mono cuts (not_lt.mp hge)
    omega
  · have hle : partitionOf cuts row.uuid ≤ cuts.length := countP_le_length
    simp only [mem_flatMap, mem_range, mem_filter, decide_eq_true_eq]
    constructor
    · rintro ⟨_, _, hrow, _⟩
      exact hrow
    · exact fun hrow => ⟨_, by omega, hrow, rfl⟩

/-- Partitioned scans lose and duplicate nothing: for the cuts of any estimate, no UUID lies
in two of the partitions' intervals and every UUID lies in one. The scan of the whole route emits
the newest live rows of the nominated UUIDs, and the scans of the partitions emit lists of rows
that, put together in order, are the same, unless byte limits refuse a scan. -/
theorem partitionScan_flatten_eq_whole (rowsBelow target : ℕ → F) (hasRows : Bool)
    {partitions : ℕ} (hpos : 1 ≤ partitions) {fragments : List (StoredFragment L)}
    (hids : (fragments.map fun f => f.id).Nodup) (read : RouteRead L) :
    let cuts := balancedCuts rowsBelow target hasRows partitions
    (∀ i < partitions, ∀ j < partitions, i ≠ j → ∀ uuid,
      ¬((partitionInterval cuts i).inInterval uuid = true ∧
        (partitionInterval cuts j).inInterval uuid = true)) ∧
    (∀ uuid, ∃ i < partitions, (partitionInterval cuts i).inInterval uuid = true) ∧
    ∃ (rows : List (PropertySnapshotRow L)) (part : ℕ → List (PropertySnapshotRow L)),
      EmitsNewest (routeFragments fragments) rows ∧
      Ends IsByteLimit (· = rows.filter fun row => wants read.uuids row.uuid)
        (visitRouteStreaming read fragments) ∧
      (∀ index < partitions,
        Ends IsByteLimit (· = part index) (partitionScan read fragments cuts partitions index)) ∧
      (range partitions).flatMap part = rows.filter fun row => wants read.uuids row.uuid := by
  intro cuts
  obtain ⟨hcuts, hlen⟩ := balancedCuts_spec rowsBelow target hasRows hpos
  refine ⟨fun i _ j _ hij uuid hboth => ?_, fun uuid => ?_, ?_⟩
  · rw [inInterval_partitionInterval_iff hcuts, inInterval_partitionInterval_iff hcuts] at hboth
    omega
  · have hle : partitionOf cuts uuid ≤ cuts.length := countP_le_length
    exact ⟨_, hle.trans_lt hlen, (inInterval_partitionInterval_iff hcuts _ uuid).mpr rfl⟩
  · obtain ⟨rows, hnewest, hstream⟩ := visitRouteStreaming_spec hids
    refine ⟨rows, _, hnewest, hstream read, fun index hindex => ?_,
      flatMap_partitions (hnewest.ascending.filter _) hlen⟩
    have hpart := hstream { read with
      uuids :=
        if 1 < partitions then some (UuidRange (partitionInterval cuts index) read.uuids)
        else read.uuids }
    rwa [filter_partition read.uuids hcuts hlen hindex] at hpart

/-- Three partitions of the sample route, cut by a uniform estimate over the keys below
twelve; the two rows fall into different partitions. -/
theorem partitionScan_sample :
    balancedCuts (fun key => min key 12) (fun share => 4 * share) true 3 = [4, 8] ∧
    partitionScan (Sample.streamRead none 256) [Sample.storedBase] [4, 8] 3 1 =
      .ok [⟨5, false, [("age", 7)]⟩] ∧
    ∃ (rows : List (PropertySnapshotRow ℕ)) (part : ℕ → List (PropertySnapshotRow ℕ)),
      EmitsNewest (routeFragments [Sample.storedBase]) rows ∧
      Ends IsByteLimit (· = rows.filter fun row => wants none row.uuid)
        (visitRouteStreaming (Sample.streamRead none 256) [Sample.storedBase]) ∧
      (∀ index < 3, Ends IsByteLimit (· = part index)
        (partitionScan (Sample.streamRead none 256) [Sample.storedBase] [4, 8] 3 index)) ∧
      (range 3).flatMap part = rows.filter fun row => wants none row.uuid := by
  have hcuts : balancedCuts (fun key => min key 12) (fun share => 4 * share) true 3 = [4, 8] := by
    decide +kernel
  have hscan := partitionScan_flatten_eq_whole (fun key => min key 12) (fun share => 4 * share)
    true (show 1 ≤ 3 by decide) (show ([Sample.storedBase].map fun f => f.id).Nodup by decide)
    (Sample.streamRead none 256)
  rw [hcuts] at hscan
  exact ⟨hcuts, by decide +kernel, hscan.2.2⟩

end GraphForge.PropertyOverlay
