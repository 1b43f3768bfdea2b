import GraphForge.Prelude

/-!
# Memory budgets of property inventories

The structure of an inventory and its cached footers draw on one ceiling. Two inventories can be
configured together, and then both ceilings change or none does. `Keeps` says what a call may do to
a budget; what holds of whole runs follows from it.
-/

namespace GraphForge.PropertyOverlay

/-- `Bytes`, with the values of `InventoryMemoryBudget::default`. -/
structure InventoryBytes where
  limit : ℕ := 512 * 1024 * 1024 / 8
  configured : Bool := false
  structural : ℕ := 0
  footers : ℕ := 0

/-- The error of an inventory over its share. -/
def refusal (requested limit : ℕ) : GfError := .resourceLimit
  (s!"property inventory metadata requires {requested} bytes against its " ++
    s!"{limit} byte read-cache share")

namespace InventoryBytes

variable (b : InventoryBytes) (limit structural requested : ℕ)

/-- `validated_limit`: a configured limit is not raised. -/
def validatedLimit : Except GfError ℕ :=
  let limit := if b.configured then min b.limit limit else limit
  let requested := saturatingAdd structural b.footers
  if limit < requested then .error (refusal requested limit) else .ok limit

/-- `apply_configuration`. -/
def applyConfiguration : InventoryBytes := { b with limit, configured := true, structural }

/-- `configure`. -/
def configure : Except GfError Unit × InventoryBytes :=
  match b.validatedLimit limit structural with
  | .error e => (.error e, b)
  | .ok limit => (.ok (), b.applyConfiguration limit structural)

/-- `admit`: footers count on top of the structure. -/
def admitBytes : Except GfError Unit × InventoryBytes :=
  let total := saturatingAdd (saturatingAdd b.structural b.footers) requested
  if b.limit < total then (.error (refusal total b.limit), b)
  else (.ok (), { b with footers := saturatingAdd b.footers requested })

/-- `ensure_structure`: the structure counts once. -/
def ensureStructure : Except GfError Unit × InventoryBytes :=
  if b.structural = 0 then
    let requested := saturatingAdd structural b.footers
    if b.limit < requested then (.error (refusal requested b.limit), b)
    else (.ok (), { b with structural })
  else (.ok (), b)

/-- `retained`. -/
def retained : ℕ := saturatingAdd b.structural b.footers

end InventoryBytes

/-- The calls on the budgets of inventories `ι`, which their addresses order. -/
inductive BudgetCall (ι : Type) where
  | configure (inventory : ι) (limit structural : ℕ)
  | admitBytes (inventory : ι) (requested : ℕ)
  | ensureStructure (inventory : ι) (structural : ℕ)
  /-- `set_query_memory_budget_pair`, with the structural bytes of the inventories. -/
  | pair (self other : ι) (limit : ℕ) (structural : ι → ℕ)

variable {ι : Type} [LinearOrder ι] (budgets : ι → InventoryBytes)

/-- Both budgets of a pair, the one with the lower address first. -/
def configureBoth (first second : ι) (limit : ℕ) (structural : ι → ℕ) :
    Except GfError Unit × (ι → InventoryBytes) :=
  match (budgets first).validatedLimit limit (structural first) with
  | .error e => (.error e, budgets)
  | .ok firstLimit =>
    match (budgets second).validatedLimit limit (structural second) with
    | .error e => (.error e, budgets)
    | .ok secondLimit => (.ok (), fun i =>
        if i = first then (budgets i).applyConfiguration firstLimit (structural i)
        else if i = second then (budgets i).applyConfiguration secondLimit (structural i)
        else budgets i)

/-- A call: what it returns and the budgets it leaves. -/
def BudgetCall.run : BudgetCall ι → Except GfError Unit × (ι → InventoryBytes)
  | configure i limit structural =>
    ((budgets i).configure limit structural).map id (Function.update budgets i)
  | admitBytes i requested => ((budgets i).admitBytes requested).map id (Function.update budgets i)
  | ensureStructure i structural =>
    ((budgets i).ensureStructure structural).map id (Function.update budgets i)
  | pair self other limit structural =>
    if self = other then
      ((budgets self).configure limit (structural self)).map id (Function.update budgets self)
    else if self < other then configureBoth budgets self other limit structural
    else configureBoth budgets other self limit structural

/-- The budgets after calls, failed ones among them. -/
def afterCalls (calls : List (BudgetCall ι)) : ι → InventoryBytes :=
  calls.foldl (fun budgets call => (call.run budgets).2) budgets

/-- The footer bytes of an inventory that a call admits: those it requests, unless it is refused. -/
def BudgetCall.admitted (i : ι) (call : BudgetCall ι) : ℕ :=
  match call, (call.run budgets).1 with
  | admitBytes j requested, .ok () => if j = i then requested else 0
  | _, _ => 0

/-- The footer bytes of an inventory that calls admit, one after the other. -/
def admittedBytes (i : ι) : (ι → InventoryBytes) → List (BudgetCall ι) → ℕ
  | _, [] => 0
  | budgets, call :: calls => call.admitted budgets i + admittedBytes i (call.run budgets).2 calls

/-- A budget within its limit stays within it, and a configured limit does not rise. -/
def Keeps (b b' : InventoryBytes) : Prop :=
  (b.retained ≤ b.limit → b'.retained ≤ b'.limit) ∧
    (b.configured = true → b'.configured = true ∧ b'.limit ≤ b.limit)

/-- A call keeps every budget, and one that fails changes none. -/
def Sound (r : Except GfError Unit × (ι → InventoryBytes)) : Prop :=
  (∀ i, Keeps (budgets i) (r.2 i)) ∧ ∀ e, r.1 = .error e → r.2 = budgets

open InventoryBytes

theorem Keeps.refl (b : InventoryBytes) : Keeps b b := ⟨id, fun h => ⟨h, le_rfl⟩⟩

omit [LinearOrder ι] in
theorem sound_error (e : GfError) : Sound budgets (.error e, budgets) :=
  ⟨fun i => .refl (budgets i), fun _ _ => rfl⟩

theorem sound_update (i : ι) (r : Except GfError Unit × InventoryBytes)
    (hr : Keeps (budgets i) r.2 ∧ ∀ e, r.1 = .error e → r.2 = budgets i) :
    Sound budgets (r.map id (Function.update budgets i)) := by
  refine ⟨fun j => ?_, fun e he => ?_⟩
  · by_cases hj : j = i
    · subst hj
      simpa using hr.1
    · simpa [hj] using Keeps.refl (budgets j)
  · simp [hr.2 e he]

theorem keeps_applyConfiguration {b : InventoryBytes} {limit structural l : ℕ}
    (h : b.validatedLimit limit structural = .ok l) :
    Keeps b (b.applyConfiguration l structural) := by
  unfold validatedLimit at h
  unfold Keeps applyConfiguration retained
  grind

theorem sound_configure (i : ι) (limit structural : ℕ) :
    Sound budgets (BudgetCall.run budgets (.configure i limit structural)) := by
  refine sound_update budgets i ((budgets i).configure limit structural) ?_
  unfold configure
  split
  · exact ⟨.refl (budgets i), fun _ _ => rfl⟩
  · exact ⟨keeps_applyConfiguration ‹_›, nofun⟩

theorem sound_configureBoth (first second : ι) (limit : ℕ) (structural : ι → ℕ) :
    Sound budgets (configureBoth budgets first second limit structural) := by
  unfold configureBoth
  split
  · exact sound_error budgets _
  split
  · exact sound_error budgets _
  · refine ⟨fun i => ?_, nofun⟩
    dsimp only
    split_ifs with hfirst hsecond
    · subst hfirst
      exact keeps_applyConfiguration ‹_›
    · subst hsecond
      exact keeps_applyConfiguration ‹_›
    · exact .refl (budgets i)

/-- Every call is sound. -/
theorem sound_run (call : BudgetCall ι) : Sound budgets (call.run budgets) := by
  cases call with
  | configure i limit structural => exact sound_configure budgets i limit structural
  | admitBytes i requested =>
    refine sound_update budgets i ((budgets i).admitBytes requested) ?_
    unfold admitBytes Keeps retained saturatingAdd
    grind
  | ensureStructure i structural =>
    refine sound_update budgets i ((budgets i).ensureStructure structural) ?_
    unfold ensureStructure Keeps retained
    grind
  | pair self other limit structural =>
    dsimp only [BudgetCall.run]
    split_ifs
    · exact sound_configure budgets self limit (structural self)
    · exact sound_configureBoth budgets self other limit structural
    · exact sound_configureBoth budgets other self limit structural

/-- Calls one after the other keep every budget. -/
theorem keeps_afterCalls (calls : List (BudgetCall ι)) (i : ι) :
    Keeps (budgets i) (afterCalls budgets calls i) := by
  induction calls generalizing budgets with
  | nil => exact .refl (budgets i)
  | cons call calls ih =>
    have hcall := (sound_run budgets call).1 i
    have hcalls := ih (call.run budgets).2
    show Keeps _ (afterCalls (call.run budgets).2 calls i)
    grind [Keeps]

theorem footers_configure (b : InventoryBytes) (limit structural : ℕ) :
    (b.configure limit structural).2.footers = b.footers := by
  unfold configure
  split <;> rfl

theorem footers_ensureStructure (b : InventoryBytes) (structural : ℕ) :
    (b.ensureStructure structural).2.footers = b.footers := by
  unfold ensureStructure
  dsimp only
  split_ifs <;> rfl

theorem footers_configureBoth (first second : ι) (limit : ℕ) (structural : ι → ℕ) (i : ι) :
    ((configureBoth budgets first second limit structural).2 i).footers = (budgets i).footers := by
  unfold configureBoth
  split
  · rfl
  split
  · rfl
  · dsimp only
    split_ifs <;> rfl

/-- Only an admission changes the footer bytes, and it adds what it requests. -/
theorem footers_run (call : BudgetCall ι) (i : ι) (h : (budgets i).footers ≤ 2 ^ 64 - 1) :
    ((call.run budgets).2 i).footers =
      saturatingAdd (budgets i).footers (call.admitted budgets i) := by
  have hkeep : saturatingAdd (budgets i).footers 0 = (budgets i).footers := min_eq_right h
  have hupdate : ∀ (j : ι) (b : InventoryBytes), b.footers = (budgets j).footers →
      (Function.update budgets j b i).footers = (budgets i).footers := by
    intro j b hb
    by_cases hij : i = j
    · subst hij
      rw [Function.update_self, hb]
    · rw [Function.update_of_ne hij]
  cases call with
  | configure j limit structural =>
    exact (hupdate j _ (footers_configure _ limit structural)).trans hkeep.symm
  | admitBytes j requested =>
    unfold BudgetCall.admitted BudgetCall.run admitBytes
    dsimp only
    by_cases hlimit : (budgets j).limit <
        saturatingAdd (saturatingAdd (budgets j).structural (budgets j).footers) requested
    · rw [if_pos hlimit]
      exact (hupdate j _ rfl).trans hkeep.symm
    · rw [if_neg hlimit]
      by_cases hij : j = i
      · subst hij
        simp
      · simpa [hij, Function.update_of_ne (Ne.symm hij)] using hkeep.symm
  | ensureStructure j structural =>
    exact (hupdate j _ (footers_ensureStructure _ structural)).trans hkeep.symm
  | pair self other limit structural =>
    refine Eq.trans ?_ hkeep.symm
    dsimp only [BudgetCall.run]
    split_ifs
    · exact hupdate self _ (footers_configure _ limit (structural self))
    · exact footers_configureBoth budgets self other limit structural i
    · exact footers_configureBoth budgets other self limit structural i

/-- The footer bytes after calls are those the calls admitted, counted with saturation. -/
theorem footers_afterCalls (calls : List (BudgetCall ι)) (i : ι)
    (h : (budgets i).footers ≤ 2 ^ 64 - 1) :
    (afterCalls budgets calls i).footers =
      saturatingAdd (budgets i).footers (admittedBytes i budgets calls) := by
  induction calls generalizing budgets with
  | nil => exact (min_eq_right h).symm
  | cons call calls ih =>
    have hcall := footers_run budgets call i h
    show (afterCalls (call.run budgets).2 calls i).footers = _
    rw [ih (call.run budgets).2 (by rw [hcall]; exact min_le_left _ _), hcall, admittedBytes]
    unfold saturatingAdd
    omega

/-- After any calls on fresh budgets, structure and footers are within the limit in force, which
`retained` counts with saturation: only the limit `usize::MAX` lets their sum exceed it. The footers
are the sum of the admitted requests. Later calls do not raise a configured limit, and a call that
fails leaves every budget as it was. -/
theorem inventoryBudget_invariant (calls later : List (BudgetCall ι)) (call : BudgetCall ι)
    (i : ι) :
    let now := afterCalls (fun _ : ι => {}) calls
    (now i).retained ≤ (now i).limit ∧
    ((now i).limit < 2 ^ 64 - 1 → (now i).structural + (now i).footers ≤ (now i).limit) ∧
    (now i).footers = min (2 ^ 64 - 1) (admittedBytes i (fun _ : ι => {}) calls) ∧
    ((now i).configured = true → (afterCalls now later i).limit ≤ (now i).limit) ∧
    ∀ e, (call.run now).1 = .error e → (call.run now).2 = now := by
  intro now
  have hnow := (keeps_afterCalls (fun _ : ι => {}) calls i).1 (by decide)
  have hfooters := footers_afterCalls (fun _ : ι => {}) calls i (by decide)
  refine ⟨hnow, fun hlimit => ?_, ?_, fun h => ((keeps_afterCalls now later i).2 h).2,
    (sound_run now call).2⟩
  · change saturatingAdd (now i).structural (now i).footers ≤ (now i).limit at hnow
    unfold saturatingAdd at hnow
    omega
  · rw [hfooters, saturatingAdd, Nat.zero_add]

end GraphForge.PropertyOverlay
