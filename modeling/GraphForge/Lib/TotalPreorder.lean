import GraphForge.Lib.Lists
import Mathlib.Data.Set.List

/-!
# Comparisons that order a set of values

`TotalPreorderOn S cmp`: on the values of `S` the three-way comparison `cmp` is reflexive, reverses
when its arguments are swapped, and is transitive. Lexicographic comparison of lists and of keyed
entries inherits this from the comparison of the elements, and a running best (keep the first
value, replace it by every strictly better one) then does not depend on the order of the values.
-/

namespace Comparison

open List

variable {α K : Type}

/-- On `S`, `cmp` is a total preorder. -/
structure TotalPreorderOn (S : α → Prop) (cmp : α → α → Ordering) : Prop where
  refl : ∀ a, S a → cmp a a = .eq
  swap : ∀ a b, S a → S b → cmp a b = (cmp b a).swap
  trans : ∀ a b c, S a → S b → S c → cmp a b ≠ .gt → cmp b c ≠ .gt → cmp a c ≠ .gt

namespace TotalPreorderOn

variable {S T : α → Prop} {cmp : α → α → Ordering} {a b c : α}

/-- On the values of `S` this is the library's `TransCmp`. -/
theorem iff_transCmp : TotalPreorderOn S cmp ↔ Std.TransCmp fun a b : {a // S a} => cmp a b := by
  constructor
  · intro h
    refine { eq_swap := fun {a b} => h.swap a b a.2 b.2, isLE_trans := fun {a b c} => ?_ }
    simp only [Ordering.isLE_iff_ne_gt]
    exact h.trans a b c a.2 b.2 c.2
  · intro h
    refine ⟨fun a ha => ?_, fun a b ha hb => ?_, fun a b c ha hb hc => ?_⟩
    · exact @Std.ReflCmp.compare_self _ (fun a b : {a // S a} => cmp a b) _ ⟨a, ha⟩
    · exact @h.eq_swap ⟨a, ha⟩ ⟨b, hb⟩
    · simp only [Ne, ← Ordering.isLE_iff_ne_gt]
      exact @h.isLE_trans ⟨a, ha⟩ ⟨b, hb⟩ ⟨c, hc⟩

section
variable (h : TotalPreorderOn S cmp)
include h

section
variable (ha : S a) (hb : S b)
include ha hb

lemma eq_of_le_of_ge (hab : cmp a b ≠ .gt) (hba : cmp b a ≠ .gt) : cmp a b = .eq := by
  have := iff_transCmp.mp h
  rw [Ne, ← Ordering.isLE_iff_ne_gt] at hab hba
  exact @Std.OrientedCmp.isLE_antisymm _ _ this.toOrientedCmp ⟨a, ha⟩ ⟨b, hb⟩ hab hba

lemma eq_trans (hc : S c) (hab : cmp a b = .eq) (hbc : cmp b c = .eq) : cmp a c = .eq :=
  @Std.TransCmp.eq_trans _ _ (iff_transCmp.mp h) ⟨a, ha⟩ ⟨b, hb⟩ ⟨c, hc⟩ hab hbc

lemma lt_of_lt_of_le (hc : S c) (hab : cmp a b = .lt) (hbc : cmp b c ≠ .gt) : cmp a c = .lt := by
  rw [Ne, ← Ordering.isLE_iff_ne_gt] at hbc
  exact @Std.TransCmp.lt_of_lt_of_isLE _ _ (iff_transCmp.mp h) ⟨a, ha⟩ ⟨b, hb⟩ ⟨c, hc⟩ hab hbc

end

lemma flip : TotalPreorderOn S fun a b => cmp b a where
  refl a ha := h.refl a ha
  swap a b ha hb := h.swap b a hb ha
  trans a b c ha hb hc hab hbc := h.trans c b a hc hb ha hbc hab

end

end TotalPreorderOn

open TotalPreorderOn

lemma totalPreorderOn_compare [LinearOrder α] (S : α → Prop) :
    TotalPreorderOn S (compare : α → α → Ordering) :=
  iff_transCmp.mpr (inferInstanceAs (Std.TransCmp (compareOn fun a : {a // S a} => (a : α))))

/-- Two pairs in the same order compare alike. -/
lemma compare_congr {β : Type} [LinearOrder α] [LinearOrder β] {a b : α} {c d : β}
    (hlt : a < b ↔ c < d) (hgt : b < a ↔ d < c) : compare a b = compare c d := by
  rcases lt_trichotomy c d with h | h | h
  · rw [compare_lt_iff_lt.mpr h, compare_lt_iff_lt.mpr (hlt.mpr h)]
  · have hab : a = b := le_antisymm (not_lt.mp fun hba => (hgt.mp hba).ne' h)
      (not_lt.mp fun hab => (hlt.mp hab).ne h)
    rw [compare_eq_iff_eq.mpr h, compare_eq_iff_eq.mpr hab]
  · rw [compare_gt_iff_gt.mpr h, compare_gt_iff_gt.mpr (hgt.mpr h)]

/-! ## Lexicographic comparison -/

/-- Compare pairwise; the first pair that differs decides, otherwise the value `otherwise`. -/
def comparePairs (cmp : α → α → Ordering) (otherwise : Ordering) : List (α × α) → Ordering
  | [] => otherwise
  | (x, y) :: pairs => (cmp x y).then (comparePairs cmp otherwise pairs)

/-- Lexicographic comparison, where a shorter list comes first. -/
def compareLists (cmp : α → α → Ordering) (xs ys : List α) : Ordering :=
  comparePairs cmp (compare xs.length ys.length) (xs.zip ys)

section Lists

variable {cmp cmp' : α → α → Ordering} {S : α → Prop}

@[simp] lemma compareLists_nil_nil : compareLists cmp [] [] = .eq := rfl

@[simp] lemma compareLists_nil_cons (y : α) (ys : List α) :
    compareLists cmp [] (y :: ys) = .lt := by
  show compare 0 (ys.length + 1) = .lt
  exact compare_lt_iff_lt.mpr (Nat.zero_lt_succ _)

@[simp] lemma compareLists_cons_nil (x : α) (xs : List α) :
    compareLists cmp (x :: xs) [] = .gt := by
  show compare (xs.length + 1) 0 = .gt
  exact compare_gt_iff_gt.mpr (Nat.zero_lt_succ _)

@[simp] lemma compareLists_cons_cons (x y : α) (xs ys : List α) :
    compareLists cmp (x :: xs) (y :: ys) = (cmp x y).then (compareLists cmp xs ys) := by
  have hlen : compare (xs.length + 1) (ys.length + 1) = compare xs.length ys.length :=
    compare_congr (by omega) (by omega)
  unfold compareLists
  rw [length_cons, length_cons, hlen, zip_cons_cons, comparePairs]

lemma compareLists_congr {xs ys : List α} (h : ∀ x ∈ xs, ∀ y ∈ ys, cmp x y = cmp' x y) :
    compareLists cmp xs ys = compareLists cmp' xs ys := by
  induction xs generalizing ys with
  | nil => cases ys <;> simp
  | cons x xs ih =>
    cases ys with
    | nil => simp
    | cons y ys =>
      rw [compareLists_cons_cons, compareLists_cons_cons, h x mem_cons_self y mem_cons_self,
        ih fun x' hx' y' hy' => h x' (mem_cons_of_mem _ hx') y' (mem_cons_of_mem _ hy')]

lemma compareLists_self {xs : List α} (h : ∀ x ∈ xs, cmp x x = .eq) :
    compareLists cmp xs xs = .eq := by
  induction xs with
  | nil => rfl
  | cons x xs ih =>
    rw [compareLists_cons_cons, h x mem_cons_self, ih fun y hy => h y (mem_cons_of_mem _ hy)]
    rfl

/-- A shared start does not matter. -/
lemma compareLists_append_left (h : ∀ a, cmp a a = .eq) (start xs ys : List α) :
    compareLists cmp (start ++ xs) (start ++ ys) = compareLists cmp xs ys := by
  induction start with
  | nil => rfl
  | cons a start ih =>
    rw [cons_append, cons_append, compareLists_cons_cons, h a, ih]
    rfl

/-- Starts of one length decide first. -/
lemma compareLists_append {xs ys : List α} (h : xs.length = ys.length) (us vs : List α) :
    compareLists cmp (xs ++ us) (ys ++ vs) =
      (compareLists cmp xs ys).then (compareLists cmp us vs) := by
  induction xs generalizing ys with
  | nil =>
    rw [length_eq_zero_iff.mp h.symm]
    rfl
  | cons x xs ih =>
    cases ys with
    | nil => cases h
    | cons y ys =>
      rw [cons_append, cons_append, compareLists_cons_cons, compareLists_cons_cons,
        ih (Nat.succ.inj h), Ordering.then_assoc]

lemma compareLists_swap {xs ys : List α} (h : ∀ x ∈ xs, ∀ y ∈ ys, cmp x y = (cmp y x).swap) :
    compareLists cmp xs ys = (compareLists cmp ys xs).swap := by
  induction xs generalizing ys with
  | nil => cases ys <;> simp
  | cons x xs ih =>
    cases ys with
    | nil => simp
    | cons y ys =>
      have hrest := @ih ys fun x' hx' y' hy' =>
        h x' (mem_cons_of_mem _ hx') y' (mem_cons_of_mem _ hy')
      rw [compareLists_cons_cons, compareLists_cons_cons, Ordering.swap_then, ← hrest,
        ← h x mem_cons_self y mem_cons_self]

/-- Two images of one list tie when they tie element by element. -/
lemma compareLists_map_eq_iff {β : Type} {xs : List β} {f g : β → α} :
    compareLists cmp (xs.map f) (xs.map g) = .eq ↔ ∀ x ∈ xs, cmp (f x) (g x) = .eq := by
  induction xs with
  | nil => simp
  | cons x xs ih =>
    rw [map_cons, map_cons, compareLists_cons_cons, Ordering.then_eq_eq, ih, forall_mem_cons]

lemma compareLists_lt_iff [LinearOrder α] {xs ys : List α} :
    compareLists compare xs ys = .lt ↔ xs < ys := by
  induction xs generalizing ys with
  | nil => cases ys <;> simp
  | cons x xs ih =>
    cases ys with
    | nil => simp
    | cons y ys =>
      rw [compareLists_cons_cons, cons_lt_cons_iff, Ordering.then_eq_lt, compare_lt_iff_lt,
        compare_eq_iff_eq, ih]

/-- A map into lists that keeps the order keeps comparisons. -/
lemma compareLists_eq_compare {β : Type} [LinearOrder α] [LinearOrder β] {f : β → List α} {b c : β}
    (hlt : b < c ↔ f b < f c) (hgt : c < b ↔ f c < f b) :
    compareLists compare (f b) (f c) = compare b c := by
  have hswap : compareLists compare (f b) (f c) = (compareLists compare (f c) (f b)).swap :=
    compareLists_swap fun _ _ _ _ => Std.OrientedCmp.eq_swap
  rcases lt_trichotomy b c with h | h | h
  · rw [compareLists_lt_iff.mpr (hlt.mp h), compare_lt_iff_lt.mpr h]
  · rw [h, compareLists_self fun _ _ => compare_eq_iff_eq.mpr rfl, compare_eq_iff_eq.mpr rfl]
  · rw [hswap, compareLists_lt_iff.mpr (hgt.mp h), compare_gt_iff_gt.mpr h]
    rfl

lemma compareLists_map {β : Type} (f : β → α) (xs ys : List β) :
    compareLists cmp (xs.map f) (ys.map f) = xs.compareLex (fun a b => cmp (f a) (f b)) ys := by
  induction xs generalizing ys with
  | nil => cases ys <;> simp [List.compareLex]
  | cons x xs ih =>
    cases ys with
    | nil => simp [List.compareLex]
    | cons y ys => rw [map_cons, map_cons, compareLists_cons_cons, ih, List.compareLex_cons_cons]

lemma compareLists_trans (h : TotalPreorderOn S cmp) {xs ys zs : List α} (hx : ∀ x ∈ xs, S x)
    (hy : ∀ y ∈ ys, S y) (hz : ∀ z ∈ zs, S z) (hxy : compareLists cmp xs ys ≠ .gt)
    (hyz : compareLists cmp ys zs ≠ .gt) : compareLists cmp xs zs ≠ .gt := by
  have := iff_transCmp.mp h
  lift xs to List {a // S a} using hx
  lift ys to List {a // S a} using hy
  lift zs to List {a // S a} using hz
  rw [compareLists_map, Ne, ← Ordering.isLE_iff_ne_gt] at *
  exact Std.TransCmp.isLE_trans hxy hyz

/-- Compare entries by key, then by value. -/
def compareEntries [Ord K] (cmp : α → α → Ordering) (x y : K × α) : Ordering :=
  (compare x.1 y.1).then (cmp x.2 y.2)

/-- Keyed entries of ordered values. -/
theorem TotalPreorderOn.entries [LinearOrder K] (h : TotalPreorderOn S cmp) :
    TotalPreorderOn (fun e : K × α => S e.2) (compareEntries cmp) := by
  have hvalues : TotalPreorderOn (fun e : K × α => S e.2) fun e f => cmp e.2 f.2 :=
    ⟨fun e => h.refl e.2, fun e f => h.swap e.2 f.2, fun d e f => h.trans d.2 e.2 f.2⟩
  have := iff_transCmp.mp hvalues
  exact iff_transCmp.mpr (inferInstanceAs (Std.TransCmp
    (compareLex (compareOn fun e : {e : K × α // S e.2} => e.1.1) fun e f => cmp e.1.2 f.1.2)))

end Lists

/-! ## Running best -/

section Best

variable (cmp : α → α → Ordering)

/-- Keep the best value so far: the first one, then every strictly smaller one. -/
def keepBest (best : Option α) (v : α) : Option α :=
  match best with
  | none => some v
  | some b => if cmp v b = .lt then some v else some b

/-- The best of a list, starting from what is already there. -/
def runningBest (best : Option α) (vs : List α) : Option α := vs.foldl (keepBest cmp) best

/-- `b` is one of the values and none of them is below it. -/
def IsBestOf (vs : List α) (b : α) : Prop := b ∈ vs ∧ ∀ v ∈ vs, cmp b v ≠ .gt

/-- The best of the values, or nothing when there are none. -/
def IsBest (vs : List α) : Option α → Prop
  | none => vs = []
  | some b => IsBestOf cmp vs b

variable {cmp} {S : α → Prop}

/-- What the running best has gone through, and what it holds. -/
lemma runningBest_isBest (h : TotalPreorderOn S cmp) {seen vs : List α} {best : Option α}
    (hseen : ∀ v ∈ seen, S v) (hvs : ∀ v ∈ vs, S v) (hbest : IsBest cmp seen best) :
    IsBest cmp (seen ++ vs) (runningBest cmp best vs) := by
  induction vs generalizing seen best with
  | nil =>
    rw [append_nil]
    exact hbest
  | cons v vs ih =>
    obtain ⟨hv, hvs'⟩ := forall_mem_cons.mp hvs
    have hseen' : ∀ x ∈ seen ++ [v], S x := forall_mem_concat.mpr ⟨hseen, hv⟩
    have hstep : IsBest cmp (seen ++ [v]) (keepBest cmp best v) := by
      cases best with
      | none =>
        have hnil : seen = [] := hbest
        rw [hnil]
        show IsBestOf cmp [v] v
        refine ⟨mem_singleton_self v, ?_⟩
        intro x hx
        rw [mem_singleton.mp hx, h.refl v hv]
        decide
      | some b =>
        have hb : IsBestOf cmp seen b := hbest
        have hSb := hseen b hb.1
        unfold keepBest
        by_cases hlt : cmp v b = .lt
        · simp only [hlt, if_true]
          refine ⟨by simp, forall_mem_concat.mpr ⟨fun x hx => ?_, ?_⟩⟩
          · rw [h.lt_of_lt_of_le hv hSb (hseen x hx) hlt (hb.2 x hx)]
            decide
          · rw [h.refl v hv]
            decide
        simp only [hlt, if_false]
        refine ⟨mem_append_left _ hb.1, forall_mem_concat.mpr ⟨hb.2, ?_⟩⟩
        rw [h.swap b v hSb hv]
        cases hcase : cmp v b with
        | lt => exact absurd hcase hlt
        | eq => decide
        | gt => decide
    have := ih hseen' hvs' hstep
    rwa [append_assoc, singleton_append] at this

/-- The best of some of the values is a best of all when each value has one of them that is not
above it. -/
lemma IsBest.of_bests (h : TotalPreorderOn S cmp) {vs bests : List α} {best : Option α}
    (hbest : IsBest cmp bests best) (hvs : ∀ v ∈ vs, S v) (hsub : ∀ b ∈ bests, b ∈ vs)
    (hbelow : ∀ v ∈ vs, ∃ b ∈ bests, cmp b v ≠ .gt) : IsBest cmp vs best := by
  cases best with
  | none =>
    show vs = []
    rw [eq_nil_iff_forall_not_mem]
    intro v hv
    obtain ⟨b, hb, _⟩ := hbelow v hv
    rw [show bests = [] from hbest] at hb
    cases hb
  | some d =>
    have hd := hsub d hbest.1
    refine ⟨hd, fun v hv => ?_⟩
    obtain ⟨b, hb, hle⟩ := hbelow v hv
    exact h.trans d b v (hvs d hd) (hvs b (hsub b hb)) (hvs v hv) (hbest.2 b hb) hle

/-- Two least values of the same collection tie. -/
lemma IsBestOf.eq_of_mem_iff (h : TotalPreorderOn S cmp) {vs ws : List α} {b c : α}
    (hS : ∀ v ∈ vs, S v) (hmem : ∀ v, v ∈ vs ↔ v ∈ ws) (hb : IsBestOf cmp vs b)
    (hc : IsBestOf cmp ws c) : cmp b c = .eq := by
  have hcv : c ∈ vs := (hmem c).mpr hc.1
  exact h.eq_of_le_of_ge (hS b hb.1) (hS c hcv) (hb.2 c hcv) (hc.2 b ((hmem b).mp hb.1))

end Best

end Comparison
