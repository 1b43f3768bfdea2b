import GraphForge.Uuid
import GraphForge.Lib.Lists
import Mathlib.Data.List.MinMax

/-!
# Memberships of UUIDs

A read may be restricted to a set of UUIDs. It skips what the membership denies to hold a member,
and does not filter what the membership claims to hold entirely. A membership is a set, an interval
of UUIDs, possibly cut down by another membership, or an intersection of several with a set of
candidates. A probe may also ask for a member that matches a predicate; a matching member is never
denied, and a `UuidMembership` carries that fact.
-/

namespace GraphForge

open List

/-- A half-open interval `low..high` of UUIDs, unbounded above without `high`. -/
abbrev UuidInterval := Uuid × Option Uuid

namespace UuidInterval

/-- The largest UUID there is. -/
def maxUuid : Uuid := ⟨2 ^ 128 - 1, by norm_num⟩

/-- Membership in the interval. -/
def inInterval (interval : UuidInterval) (uuid : Uuid) : Bool :=
  interval.1 ≤ uuid && interval.2.all (uuid < ·)

/-- The largest UUID inside the interval, `none` for an empty one. -/
def top (interval : UuidInterval) : Option Uuid :=
  match interval.2 with
  | none => some maxUuid
  | some high =>
    if high.val = 0 then none
    else
      let top : Uuid := ⟨high.val - 1, (Nat.sub_le _ _).trans_lt high.isLt⟩
      if interval.1 ≤ top then some top else none

/-- The range `min..=max` clipped to the interval, `none` when nothing remains. -/
def clip (interval : UuidInterval) (min max : Uuid) : Option (Uuid × Uuid) :=
  match interval.top with
  | none => none
  | some top =>
    let low := Max.max min interval.1
    let high := Min.min max top
    if low ≤ high then some (low, high) else none

/-- The top of an interval bounds its members. -/
lemma exists_top {interval : UuidInterval} {uuid : Uuid} (h : interval.inInterval uuid = true) :
    ∃ top, interval.top = some top ∧ uuid ≤ top := by
  obtain ⟨low, high⟩ := interval
  simp only [inInterval, Bool.and_eq_true, decide_eq_true_eq] at h
  obtain ⟨hlow, hhigh⟩ := h
  cases high with
  | none => exact ⟨maxUuid, rfl, Nat.le_sub_one_of_lt uuid.isLt⟩
  | some high =>
    have hlt : uuid.val < high.val := by simpa using hhigh
    have hle : low.val ≤ uuid.val := hlow
    refine ⟨⟨high.val - 1, by have := high.isLt; omega⟩, ?_, show uuid.val ≤ high.val - 1 by omega⟩
    simp only [top]
    rw [if_neg (by omega), if_pos]
    exact show low.val ≤ high.val - 1 by omega

/-- Clipping a range keeps the members of the interval in it. -/
lemma exists_clip {interval : UuidInterval} {uuid min max : Uuid}
    (h : interval.inInterval uuid = true) (hmin : min ≤ uuid) (hmax : uuid ≤ max) :
    ∃ low high, interval.clip min max = some (low, high) ∧ low ≤ uuid ∧ uuid ≤ high := by
  obtain ⟨top, htop, hle⟩ := exists_top h
  simp only [inInterval, Bool.and_eq_true, decide_eq_true_eq] at h
  have hlow : Max.max min interval.1 ≤ uuid := max_le hmin h.1
  have hhigh : uuid ≤ Min.min max top := le_min hmax hle
  refine ⟨_, _, ?_, hlow, hhigh⟩
  simp only [clip, htop]
  rw [if_pos (hlow.trans hhigh)]

/-- What lies between the ends of an interval is in it. -/
lemma inInterval_of_le_top {interval : UuidInterval} {uuid top : Uuid}
    (htop : interval.top = some top) (hlow : interval.1 ≤ uuid) (hle : uuid ≤ top) :
    interval.inInterval uuid = true := by
  unfold UuidInterval.top at htop
  unfold UuidInterval.inInterval
  split at htop
  next hhigh => simp [hlow, hhigh]
  next high hhigh =>
    simp only [Option.ite_none_left_eq_some, Option.ite_none_right_eq_some] at htop
    obtain ⟨hpos, -, htop⟩ := htop
    have hle : uuid.val ≤ high.val - 1 := by
      rw [← Option.some.inj htop] at hle
      exact hle
    have hlt : uuid < high := show uuid.val < high.val by omega
    simp [hlow, hhigh, hlt]

end UuidInterval

/-! ## Probes -/

/-- What a read asks of a `dyn UuidMembership`. -/
structure UuidProbes where
  len : ℕ
  containsUuid : Uuid → Bool
  mayContainInRange : Uuid → Uuid → Bool
  anyMatchInRange : Uuid → Uuid → (Uuid → Bool) → Bool
  containsEveryInRange : Uuid → Uuid → Bool

/-- `CompactUuidSet`: a table that is searched by hash, or its keys once they are sorted. -/
structure CompactUuidSet where
  slots : List (List Uuid)
  len : ℕ
  sorted : Bool
  /-- The search of the open-addressed table. -/
  probed : Uuid → Bool

namespace UuidProbes

/-! ## The memberships -/

/-- The default methods of the trait. -/
def ofMatch (len : ℕ) (containsUuid : Uuid → Bool)
    (anyMatchInRange : Uuid → Uuid → (Uuid → Bool) → Bool) : UuidProbes where
  len
  containsUuid
  mayContainInRange min max := anyMatchInRange min max fun _ => true
  anyMatchInRange
  containsEveryInRange _ _ := false

/-- `range(min..=max).any(..)` of a `BTreeSet`, by its members. -/
def rangeAny (members : List Uuid) (min max : Uuid) (wanted : Uuid → Bool) : Bool :=
  members.any fun uuid => min ≤ uuid && uuid ≤ max && wanted uuid

/-- The probes of a `BTreeSet`. -/
def btreeSet (members : List Uuid) : UuidProbes :=
  ofMatch members.length (fun uuid => members.contains uuid) (rangeAny members)

/-- A walk over a sorted slice from the partition point of `min`. -/
def sliceAny (uuids : List Uuid) (min max : Uuid) (wanted : Uuid → Bool) : Bool :=
  ((uuids.drop (uuids.partitionPoint (· < min))).takeWhile (· ≤ max)).any wanted

/-- `SortedUuids`. The binary search of a sorted slice is membership. -/
def sortedUuids (uuids : List Uuid) : UuidProbes :=
  ofMatch uuids.length (fun uuid => uuids.contains uuid) (sliceAny uuids)

/-- `CompactUuidSet`. Only a sorted one knows its least and greatest key. -/
def compactUuidSet (set : CompactUuidSet) : UuidProbes :=
  let minUuid := if set.sorted then set.slots.head?.bind (·.head?) else none
  let maxUuid := if set.sorted then set.slots.head?.bind (·.getLast?) else none
  ofMatch set.len
    (fun uuid =>
      if set.len = 0 then false
      else if set.sorted then set.slots.head?.any (·.contains uuid)
      else set.probed uuid)
    fun min max wanted =>
      if set.sorted = false then minUuid.all (· ≤ max) && maxUuid.all (min ≤ ·)
      else set.slots.head?.any (sliceAny · min max wanted)

/-- `UuidFilter`: the intersection of nominations and equality candidates, searched through the
smallest of them. -/
def uuidFilter (nominations : List UuidProbes) (candidates : Option (List Uuid)) : UuidProbes :=
  let contains uuid :=
    nominations.all (·.containsUuid uuid) && candidates.all (·.contains uuid)
  ofMatch (((nominations.map (·.len)).min?.or (candidates.map length)).getD 0) contains
    fun min max wanted =>
      match nominations.argmin (·.len), candidates with
      | some nomination, some candidates =>
        if candidates.length < nomination.len then
          rangeAny candidates min max fun uuid => contains uuid && wanted uuid
        else nomination.anyMatchInRange min max fun uuid => contains uuid && wanted uuid
      | some nomination, none =>
        nomination.anyMatchInRange min max fun uuid => contains uuid && wanted uuid
      | none, some candidates => rangeAny candidates min max wanted
      | none, none => false

/-- `UuidRange`. Without an inner membership its length is `usize::MAX`. -/
def uuidRange (interval : UuidInterval) (inner : Option UuidProbes) : UuidProbes where
  len := inner.elim (2 ^ 64 - 1) len
  containsUuid uuid := interval.inInterval uuid && inner.all (·.containsUuid uuid)
  mayContainInRange min max :=
    (interval.clip min max).any fun (low, high) => inner.all (·.mayContainInRange low high)
  anyMatchInRange min max wanted :=
    (interval.clip min max).any fun (low, high) => inner.all (·.anyMatchInRange low high wanted)
  containsEveryInRange min max :=
    inner.isNone && decide (min ≤ max) && decide (interval.1 ≤ min) && interval.top.any (max ≤ ·)

/-! ## What the probes find -/

/-- The answers of the probes are right about a range. -/
structure Sound (p : UuidProbes) : Prop where
  denied : ∀ min max, p.mayContainInRange min max = false →
    ∀ uuid, min ≤ uuid → uuid ≤ max → p.containsUuid uuid = false
  claimed : ∀ min max, p.containsEveryInRange min max = true →
    ∀ uuid, min ≤ uuid → uuid ≤ max → p.containsUuid uuid = true

/-- A matching member of a range is found. -/
structure Finds (p : UuidProbes) : Prop where
  may : ∀ min max, p.mayContainInRange min max = p.anyMatchInRange min max fun _ => true
  any : ∀ {uuid min max wanted}, p.containsUuid uuid = true → min ≤ uuid → uuid ≤ max →
    wanted uuid = true → p.anyMatchInRange min max wanted = true
  claimed : ∀ min max, p.containsEveryInRange min max = true →
    ∀ uuid, min ≤ uuid → uuid ≤ max → p.containsUuid uuid = true

/-- Finding every matching member is enough for sound answers. -/
lemma Finds.sound {p : UuidProbes} (h : p.Finds) : p.Sound where
  denied min max hno uuid hmin hmax := by
    by_contra hcontains
    rw [Bool.not_eq_false] at hcontains
    rw [h.may, h.any hcontains hmin hmax rfl] at hno
    cases hno
  claimed := h.claimed

variable {members uuids : List Uuid} {uuid min max : Uuid} {wanted : Uuid → Bool}

/-- The default methods find what `any_match_in_range` finds. -/
lemma finds_ofMatch {len : ℕ} {contains : Uuid → Bool}
    {any : Uuid → Uuid → (Uuid → Bool) → Bool}
    (h : ∀ {uuid min max wanted}, contains uuid = true → min ≤ uuid → uuid ≤ max →
      wanted uuid = true → any min max wanted = true) : Finds (ofMatch len contains any) where
  may _ _ := rfl
  any := h
  claimed _ _ hno := nomatch hno

lemma rangeAny_of_mem (hmem : uuid ∈ members) (hmin : min ≤ uuid) (hmax : uuid ≤ max)
    (hwanted : wanted uuid = true) : rangeAny members min max wanted = true :=
  any_eq_true.mpr ⟨uuid, hmem, by simp [hmin, hmax, hwanted]⟩

/-- The walk over a sorted slice passes every matching member of the range. -/
lemma sliceAny_of_mem (hascending : uuids.Pairwise (· < ·)) (hmem : uuid ∈ uuids)
    (hmin : min ≤ uuid) (hmax : uuid ≤ max) (hwanted : wanted uuid = true) :
    sliceAny uuids min max wanted = true := by
  have hbelow : uuids.PartitionedBy (fun u => decide (u < min)) :=
    hascending.imp fun hlt hb => by
      rw [decide_eq_true_eq] at hb ⊢
      exact hlt.trans hb
  have habove : uuids.PartitionedBy (fun u => decide (u ≤ max)) :=
    hascending.imp fun hlt hb => by
      rw [decide_eq_true_eq] at hb ⊢
      exact hlt.le.trans hb
  unfold sliceAny
  rw [hbelow.partitionPoint_eq, hbelow.drop_countP, (habove.filter _).takeWhile_eq]
  refine any_eq_true.mpr ⟨uuid, ?_, hwanted⟩
  simp [hmem, hmin, hmax]

lemma finds_btreeSet (members : List Uuid) : Finds (btreeSet members) :=
  finds_ofMatch fun hmem => rangeAny_of_mem (contains_iff_mem.mp hmem)

lemma finds_sortedUuids (hascending : uuids.Pairwise (· < ·)) : Finds (sortedUuids uuids) :=
  finds_ofMatch fun hmem => sliceAny_of_mem hascending (contains_iff_mem.mp hmem)

lemma finds_compactUuidSet {set : CompactUuidSet}
    (hascending : set.sorted = true → ∀ slots ∈ set.slots.head?, slots.Pairwise (· < ·)) :
    Finds (compactUuidSet set) := by
  unfold compactUuidSet
  apply finds_ofMatch
  intro uuid min max wanted hcontains hmin hmax hwanted
  by_cases hsorted : set.sorted = true
  · simp only [hsorted, if_true, Bool.true_eq_false, if_false] at hcontains ⊢
    split at hcontains
    · cases hcontains
    rw [Option.any_eq_true] at hcontains ⊢
    obtain ⟨slots, hslots, hmem⟩ := hcontains
    exact ⟨slots, hslots, sliceAny_of_mem (hascending hsorted slots hslots)
      (contains_iff_mem.mp hmem) hmin hmax hwanted⟩
  · -- an unsorted set denies nothing
    simp [hsorted]

/-- Clipping a probe to the interval keeps the members of both. -/
lemma finds_uuidRange (interval : UuidInterval) {inner : Option UuidProbes}
    (h : ∀ p ∈ inner, Finds p) : Finds (uuidRange interval inner) where
  may min max := by
    unfold uuidRange
    cases inner with
    | none => rfl
    | some p =>
      have hmay := (h p rfl).may
      simp [hmay]
  any hcontains hmin hmax hwanted := by
    obtain ⟨hin, hinner⟩ := Bool.and_eq_true_iff.mp hcontains
    obtain ⟨low, high, hclip, hlow, hhigh⟩ := UuidInterval.exists_clip hin hmin hmax
    refine (Option.any_eq_true _ _).mpr ⟨(low, high), hclip, ?_⟩
    rw [Option.all_eq_true] at hinner ⊢
    exact fun p hp => (h p hp).any (hinner p hp) hlow hhigh hwanted
  claimed min max hevery uuid hmin hmax := by
    simp only [uuidRange, Bool.and_eq_true, Option.isNone_iff_eq_none, decide_eq_true_eq,
      Option.any_eq_true] at hevery ⊢
    obtain ⟨⟨⟨rfl, -⟩, hlow⟩, top, htop, hle⟩ := hevery
    exact ⟨UuidInterval.inInterval_of_le_top htop (hlow.trans hmin) (hmax.trans hle), rfl⟩

/-- A member of an intersection is a member of whichever part is searched. -/
lemma finds_uuidFilter {nominations : List UuidProbes} {candidates : Option (List Uuid)}
    (h : ∀ p ∈ nominations, Finds p) (hsome : nominations ≠ [] ∨ candidates ≠ none) :
    Finds (uuidFilter nominations candidates) := by
  unfold uuidFilter
  apply finds_ofMatch
  intro uuid min max wanted hcontains hmin hmax hwanted
  have hboth := hcontains
  rw [Bool.and_eq_true, all_eq_true, Option.all_eq_true] at hboth
  have hnomination : ∀ p ∈ nominations.argmin (·.len), p.anyMatchInRange min max
      (fun u => (nominations.all (·.containsUuid u) && candidates.all (·.contains u)) && wanted u) =
        true := by
    intro p hp
    have hmem := argmin_mem hp
    exact (h p hmem).any (hboth.1 p hmem) hmin hmax (by rw [hcontains, hwanted]; rfl)
  cases hargmin : nominations.argmin (·.len) with
  | some p =>
    cases candidates with
    | none => exact hnomination p hargmin
    | some candidates =>
      dsimp only
      split_ifs
      · exact rangeAny_of_mem (contains_iff_mem.mp (hboth.2 _ rfl)) hmin hmax
          (by rw [hcontains, hwanted]; rfl)
      · exact hnomination p hargmin
  | none =>
    cases candidates with
    | none => exact absurd (argmin_eq_none.mp hargmin) (hsome.resolve_right fun h => h rfl)
    | some candidates =>
      exact rangeAny_of_mem (contains_iff_mem.mp (hboth.2 _ rfl)) hmin hmax hwanted

end UuidProbes

/-! ## Nested memberships -/

/-- The memberships that reads build. The slices are ascending, which their search relies on, and a
filter is over something: `property_readers` makes one only when there is a nomination or a set of
candidates. -/
inductive Membership where
  | btreeSet (members : List Uuid)
  | sortedUuids (uuids : List Uuid) (ascending : uuids.Pairwise (· < ·))
  | compactUuidSet (set : CompactUuidSet)
      (ascending : set.sorted = true → ∀ slots ∈ set.slots.head?, slots.Pairwise (· < ·))
  | interval (bounds : UuidInterval)
  | range (bounds : UuidInterval) (inner : Membership)
  | filter (nomination : Membership) (nominations : List Membership)
      (candidates : Option (List Uuid))
  | candidates (members : List Uuid)

namespace Membership

mutual

/-- The probes of a membership. -/
def probes : Membership → UuidProbes
  | .btreeSet members => .btreeSet members
  | .sortedUuids uuids _ => .sortedUuids uuids
  | .compactUuidSet keys _ => .compactUuidSet keys
  | .interval bounds => .uuidRange bounds none
  | .range bounds inner => .uuidRange bounds (some inner.probes)
  | .filter nomination nominations members =>
    .uuidFilter (nomination.probes :: probesList nominations) members
  | .candidates members => .uuidFilter [] (some members)

/-- The probes of several. -/
def probesList : List Membership → List UuidProbes
  | [] => []
  | m :: ms => m.probes :: probesList ms

end

mutual

/-- However memberships are nested, no matching member is denied. -/
theorem finds_probes : ∀ m : Membership, m.probes.Finds
  | .btreeSet members => UuidProbes.finds_btreeSet members
  | .sortedUuids _ hascending => UuidProbes.finds_sortedUuids hascending
  | .compactUuidSet _ hascending => UuidProbes.finds_compactUuidSet hascending
  | .interval bounds => UuidProbes.finds_uuidRange bounds (by simp)
  | .range bounds inner => UuidProbes.finds_uuidRange bounds (by simpa using finds_probes inner)
  | .filter nomination nominations _ => UuidProbes.finds_uuidFilter
      (forall_mem_cons.mpr ⟨finds_probes nomination, finds_probesList nominations⟩) (by simp)
  | .candidates _ => UuidProbes.finds_uuidFilter (by simp) (by simp)

theorem finds_probesList : ∀ ms : List Membership, ∀ p ∈ probesList ms, p.Finds
  | [] => by simp [probesList]
  | m :: ms => forall_mem_cons.mpr ⟨finds_probes m, finds_probesList ms⟩

end

/-- Range probes are sound: a denied range holds no member, and a claimed range nothing else. -/
theorem sound_probes (m : Membership) : m.probes.Sound := m.finds_probes.sound

end Membership

/-! ## Memberships as reads consult them -/

/-- A `dyn UuidMembership` of a read: probes that find every member. -/
structure UuidMembership extends UuidProbes where
  finds : toUuidProbes.Finds

/-- Every membership that reads build is one. -/
def Membership.toUuidMembership (m : Membership) : UuidMembership := ⟨m.probes, m.finds_probes⟩

/-- A range that holds a member is not denied. -/
lemma UuidMembership.mayContain_of_contains (m : UuidMembership) {uuid min max : Uuid}
    (hcontains : m.containsUuid uuid = true) (hmin : min ≤ uuid) (hmax : uuid ≤ max) :
    m.mayContainInRange min max = true := by
  rw [m.finds.may]
  exact m.finds.any hcontains hmin hmax rfl

/-- Whether a read with these nominations wants a UUID; without nominations it wants all. -/
def wants (uuids : Option UuidMembership) (uuid : Uuid) : Bool :=
  uuids.all (·.containsUuid uuid)

/-- The interval as a membership, intersected with another one if there is one. -/
def UuidRange (interval : UuidInterval) (inner : Option UuidMembership) : UuidMembership where
  toUuidProbes := .uuidRange interval (inner.map (·.toUuidProbes))
  finds := UuidProbes.finds_uuidRange interval fun p hp => by
    obtain ⟨m, -, rfl⟩ := Option.map_eq_some_iff.mp hp
    exact m.finds

/-- A range wants what its interval and its inner membership want. -/
lemma wants_uuidRange (interval : UuidInterval) (inner : Option UuidMembership) (uuid : Uuid) :
    wants (some (UuidRange interval inner)) uuid =
      (interval.inInterval uuid && wants inner uuid) := by
  cases inner <;> rfl

end GraphForge
