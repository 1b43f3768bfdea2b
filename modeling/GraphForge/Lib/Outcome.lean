import Mathlib.Data.List.Basic

/-!
# Postconditions of fallible computations

`Except.Ends E Q x` says how a computation may end: with an error that `E` allows, or
with a value that satisfies `Q`. With `E := fun _ => False` it is total correctness.
The rules follow the shape of the code: sequencing, guards, and loops over a list.
-/

namespace Except

open List

universe u

variable {ε : Type*} {α β : Type u} {E : ε → Prop} {Q : α → Prop}
variable {x : Except ε α} {xs : List α} {f : β → α → Except ε β} {e : ε} {a : α} {p : Prop}
  {I : List α → β → Prop}

/-- `x` returns a value satisfying `Q`, or fails with an error satisfying `E`. -/
inductive Ends (E : ε → Prop) (Q : α → Prop) : Except ε α → Prop
  | ok {a : α} : Q a → Ends E Q (.ok a)
  | error {e : ε} : E e → Ends E Q (.error e)

/-- What a result satisfies. -/
lemma Ends.of_ok (h : Ends E Q x) (hx : x = .ok a) : Q a := by
  cases h with
  | ok ha => exact Except.ok.inj hx ▸ ha
  | error he => cases hx

/-- What an error satisfies. -/
lemma Ends.of_error (h : Ends E Q x) (hx : x = .error e) : E e := by
  cases h with
  | ok ha => cases hx
  | error he => exact Except.error.inj hx ▸ he

/-- A weaker postcondition. -/
lemma Ends.mono {P : α → Prop} (h : Ends E P x) (hpq : ∀ a, P a → Q a) : Ends E Q x := by
  cases h with
  | ok ha => exact .ok (hpq _ ha)
  | error he => exact .error he

lemma Ends.mono_error {F : ε → Prop} (h : Ends E Q x) (hef : ∀ e, E e → F e) : Ends F Q x := by
  cases h with
  | ok ha => exact .ok ha
  | error he => exact .error (hef _ he)

/-- Sequencing: what the first part establishes is what the second may assume. -/
lemma Ends.bind {P : α → Prop} {R : β → Prop} {f : α → Except ε β} (hx : Ends E P x)
    (hf : ∀ a, P a → Ends E R (f a)) : Ends E R (x >>= f) := by
  cases hx with
  | ok ha => exact hf _ ha
  | error he => exact .error he

/-- A guard: fail with `e` when `p` holds. -/
def refuseIf (p : Prop) [Decidable p] (e : ε) : Except ε Unit :=
  if p then .error e else .ok ()

/-- A check fails with its error, or what it refuses does not hold. -/
lemma ends_refuseIf [Decidable p] (h : p → E e) : Ends E (fun _ => ¬p) (refuseIf p e) := by
  unfold refuseIf
  split
  next hp => exact .error (h hp)
  next hp => exact .ok hp

@[simp] lemma refuseIf_eq_ok_iff [Decidable p] {u : Unit} : refuseIf p e = .ok u ↔ ¬p := by
  unfold refuseIf
  split <;> simp_all

lemma refuseIf_of_not [Decidable p] (h : ¬p) : refuseIf p e = .ok () := if_neg h

/-- The value of an option, or the error `e`. -/
def ofOption (e : ε) : Option α → Except ε α
  | none => .error e
  | some a => .ok a

lemma ofOption_eq_ok_iff {o : Option α} : ofOption e o = .ok a ↔ o = some a := by
  cases o <;> simp [ofOption]

/-- A computation that cannot fail returns. -/
lemma Ends.exists_ok (h : Ends (fun _ => False) Q x) : ∃ a, x = .ok a ∧ Q a := by
  cases h with
  | ok ha => exact ⟨_, rfl, ha⟩
  | error he => exact he.elim

/-- One error is left where `p` is what is asked for. -/
lemma Ends.refuses {p : Prop} {e : ε} (h : Ends (fun e' => e' = e ∧ ¬p) (fun a => p ∧ Q a) x) :
    (¬p → x = .error e) ∧ (p → ∃ a, x = .ok a ∧ Q a) := by
  cases h with
  | ok ha => exact ⟨absurd ha.1, fun _ => ⟨_, rfl, ha.2⟩⟩
  | error he => exact ⟨fun _ => congrArg Except.error he.1, fun hp => absurd hp he.2⟩

/-- A program that cannot fail returns. -/
lemma eq_ok_of_ends (h : Ends (fun _ => False) (· = a) x) : x = .ok a := by
  obtain ⟨_, hx, rfl⟩ := h.exists_ok
  exact hx

/-- A step whose result is known. -/
lemma Ends.step {R : β → Prop} {f : α → Except ε β} (hx : x = .ok a) (hf : Ends E R (f a)) :
    Ends E R (x >>= f) := by
  rw [hx]
  exact hf

/-- A check that passes. -/
lemma Ends.pass {α : Type} {R : α → Prop} [Decidable p] {f : Unit → Except ε α} (hp : ¬p)
    (hf : Ends E R (f ())) : Ends E R (refuseIf p e >>= f) :=
  Ends.step (refuseIf_eq_ok_iff.mpr hp) hf

/-- What a guard leaves to show. -/
lemma ends_refuseIf_bind {α : Type} {R : α → Prop} [Decidable p] {f : Unit → Except ε α} :
    Ends E R (refuseIf p e >>= f) ↔ (p → E e) ∧ (¬p → Ends E R (f ())) := by
  unfold refuseIf
  split
  next hp => exact ⟨fun h => ⟨fun _ => h.of_error rfl, absurd hp⟩, fun h => .error (h.1 hp)⟩
  next hp => exact ⟨fun h => ⟨fun hp' => absurd hp' hp, fun _ => h⟩, fun h => h.2 hp⟩

lemma ends_pure_iff : Ends E Q (pure a) ↔ Q a := ⟨fun h => h.of_ok rfl, .ok⟩

lemma ok_bind (a : α) (f : α → Except ε β) : (Except.ok a >>= f) = f a := rfl

/-- A successful sequence is two successful parts. -/
lemma bind_eq_ok_iff {f : α → Except ε β} {b : β} :
    x >>= f = .ok b ↔ ∃ a, x = .ok a ∧ f a = .ok b := by
  cases x with
  | ok a => exact ⟨fun h => ⟨a, rfl, h⟩, fun ⟨a', h, h'⟩ => by cases h; exact h'⟩
  | error e => exact ⟨nofun, fun ⟨a, h, _⟩ => by cases h⟩

/-- A check and what comes after it. -/
lemma check_bind_eq_ok_iff {x : Except ε PUnit} {f : PUnit → Except ε β} {b : β} :
    x >>= f = .ok b ↔ x = .ok ⟨⟩ ∧ f ⟨⟩ = .ok b := by
  rw [bind_eq_ok_iff]
  exact ⟨fun ⟨_, h⟩ => h, fun h => ⟨_, h⟩⟩

@[simp] lemma mapError_eq_ok_iff {δ : Type*} {f : ε → δ} : x.mapError f = .ok a ↔ x = .ok a := by
  cases x with
  | ok b => exact ⟨fun h => by cases h; rfl, fun h => by cases h; rfl⟩
  | error e => exact ⟨nofun, nofun⟩

/-- A loop over a list keeps an invariant on what it has gone through so far. -/
lemma Ends.foldlM_mem (xs : List α)
    (step : ∀ done b a, a ∈ xs → I done b → Ends E (I (done ++ [a])) (f b a)) :
    ∀ (done : List α) (b : β), I done b → Ends E (I (done ++ xs)) (xs.foldlM f b) := by
  induction xs with
  | nil =>
    intro done b h
    rw [append_nil]
    exact .ok h
  | cons x xs ih =>
    intro done b h
    refine (step done b x mem_cons_self h).bind fun b' h' => ?_
    have := ih (fun done b a ha => step done b a (mem_cons_of_mem x ha)) (done ++ [x]) b' h'
    rwa [append_assoc] at this

/-- A loop keeps an invariant that every step keeps. -/
lemma Ends.foldlM (step : ∀ done b a, I done b → Ends E (I (done ++ [a])) (f b a))
    (xs done : List α) (b : β) (h : I done b) : Ends E (I (done ++ xs)) (xs.foldlM f b) :=
  Ends.foldlM_mem xs (fun done b a _ => step done b a) done b h

/-- The same where a step may use its place in the list. -/
lemma Ends.foldlM_split
    (step : ∀ done a rest b, xs = done ++ a :: rest → I done b → Ends E (I (done ++ [a])) (f b a))
    (b : β) (h : I [] b) : Ends E (I xs) (xs.foldlM f b) := by
  have hrest : ∀ rest done b, xs = done ++ rest → I done b → Ends E (I xs) (rest.foldlM f b) := by
    intro rest
    induction rest with
    | nil =>
      intro done b hxs hdone
      rw [append_nil] at hxs
      exact .ok (hxs ▸ hdone)
    | cons x rest ih =>
      intro done b hxs hdone
      refine (step done x rest b hxs hdone).bind fun b' hb' => ?_
      exact ih (done ++ [x]) b' (by rw [hxs, append_assoc, singleton_append]) hb'
  exact hrest xs [] b rfl h

lemma foldlM_eq_ok_foldl {g : β → α → β} (h : ∀ a ∈ xs, ∀ b, f b a = .ok (g b a)) (b : β) :
    xs.foldlM f b = .ok (xs.foldl g b) := by
  induction xs generalizing b with
  | nil => rfl
  | cons x xs ih =>
    rw [foldlM_cons, h x mem_cons_self]
    exact ih (fun a ha => h a (mem_cons_of_mem _ ha)) (g b x)

/-- A loop whose successful steps are also steps of another loop. -/
lemma foldlM_eq_ok_of_step {g : β → α → Except ε β}
    (h : ∀ a ∈ xs, ∀ b b', f b a = .ok b' → g b a = .ok b') {b c : β} (hf : xs.foldlM f b = .ok c) :
    xs.foldlM g b = .ok c := by
  induction xs generalizing b with
  | nil => exact hf
  | cons x xs ih =>
    rw [foldlM_cons] at hf ⊢
    obtain ⟨b', hstep, hrest⟩ := bind_eq_ok_iff.mp hf
    rw [h x mem_cons_self b b' hstep]
    exact ih (fun a ha => h a (mem_cons_of_mem _ ha)) hrest

/-- A loop of checks passes if all of them do. -/
lemma forM_eq_ok_iff {α : Type*} {f : α → Except ε PUnit.{u + 1}} {xs : List α}
    {u : PUnit.{u + 1}} : xs.forM f = .ok u ↔ ∀ a ∈ xs, f a = .ok ⟨⟩ := by
  induction xs with
  | nil => exact ⟨by simp, fun _ => rfl⟩
  | cons x xs ih =>
    show (f x >>= fun _ => xs.forM f) = _ ↔ _
    rw [check_bind_eq_ok_iff, forall_mem_cons, ← ih]

/-- What every successful step keeps holds after a loop. -/
lemma invariant_of_foldlM {b c : β} (hloop : xs.foldlM f b = .ok c) (h : I [] b)
    (step : ∀ done b a b', I done b → f b a = .ok b' → I (done ++ [a]) b') : I xs c := by
  refine (Ends.foldlM (E := fun _ => True) (fun done b a hdone => ?_) xs [] b h).of_ok hloop
  cases hstep : f b a with
  | error e => exact .error trivial
  | ok b' => exact .ok (step done b a b' hdone hstep)

/-- What every successful step ensures of its element holds of all elements of a loop. -/
lemma forall_of_foldlM {P : α → Prop} {b c : β} (h : xs.foldlM f b = .ok c)
    (hf : ∀ b a b', f b a = .ok b' → P a) : ∀ a ∈ xs, P a := by
  induction xs generalizing b with
  | nil => simp
  | cons x xs ih =>
    obtain ⟨b', hstep, hrest⟩ := bind_eq_ok_iff.mp h
    exact forall_mem_cons.mpr ⟨hf b x b' hstep, ih hrest⟩

/-- A loop that compares each key with the one before it passes ordered keys only. -/
lemma pairwise_of_foldlM_prior {κ : Type*} {R : κ → κ → Prop} [IsTrans κ R] {key : α → κ}
    (prior : β → Option κ) {b c : β} (h : xs.foldlM f b = .ok c)
    (hf : ∀ b a b', f b a = .ok b' → (∀ k ∈ prior b, R k (key a)) ∧ prior b' = some (key a)) :
    xs.Pairwise (fun x y => R (key x) (key y)) ∧ ∀ k ∈ prior b, ∀ x ∈ xs, R k (key x) := by
  induction xs generalizing b with
  | nil => simp
  | cons x xs ih =>
    obtain ⟨b', hstep, hrest⟩ := bind_eq_ok_iff.mp h
    have hx := hf b x b' hstep
    have htail := ih hrest
    -- the first key is the prior of the rest
    have hfirst : ∀ y ∈ xs, R (key x) (key y) := htail.2 (key x) (by rw [hx.2]; rfl)
    refine ⟨pairwise_cons.mpr ⟨hfirst, htail.1⟩, ?_⟩
    intro k hk y hy
    rcases mem_cons.mp hy with rfl | hy
    · exact hx.1 k hk
    · exact trans_of R (hx.1 k hk) (hfirst y hy)

/-- Mapping a fallible function over a list, element by element. -/
lemma Ends.mapM {f : α → Except ε β} {R : α → β → Prop} (hf : ∀ a ∈ xs, Ends E (R a) (f a)) :
    Ends E (Forall₂ R xs) (xs.mapM f) := by
  induction xs with
  | nil => exact .ok .nil
  | cons x xs ih =>
    rw [mapM_cons]
    refine (hf x mem_cons_self).bind fun b hb => ?_
    refine (ih fun a ha => hf a (mem_cons_of_mem _ ha)).bind fun bs hbs => ?_
    exact .ok (.cons hb hbs)

lemma mapM_map_eq_ok {encode : β → α} {decode : α → Except ε β}
    (h : ∀ b, decode (encode b) = .ok b) (ys : List β) : (ys.map encode).mapM decode = .ok ys := by
  induction ys with
  | nil => rfl
  | cons y ys ih =>
    rw [map_cons, mapM_cons, h, ok_bind, ih, ok_bind]
    rfl

lemma mapM_eq_ok_map {f : α → Except ε β} {g : α → β} (h : ∀ a ∈ xs, f a = .ok (g a)) :
    xs.mapM f = .ok (xs.map g) := by
  induction xs with
  | nil => rfl
  | cons x xs ih =>
    rw [mapM_cons, h x mem_cons_self, ih fun a ha => h a (mem_cons_of_mem _ ha)]
    rfl

/-! ## Computations over a state -/

section
variable {σ : Type u} {m : StateT σ (Except ε) α} {P : α → Prop}

/-- Whatever the state is at the start, the computation returns a value satisfying `Q`, or fails with
an error satisfying `E`. -/
def Runs (E : ε → Prop) (Q : α → Prop) (m : StateT σ (Except ε) α) : Prop :=
  ∀ s, Ends E (fun r => Q r.1) (m s)

lemma Runs.mono (h : Runs E P m) (hpq : ∀ a, P a → Q a) : Runs E Q m :=
  fun s => (h s).mono fun r => hpq r.1

/-- Steps one after the other, whatever the state. -/
lemma Runs.bind {R : β → Prop} {f : α → StateT σ (Except ε) β} (hm : Runs E P m)
    (hf : ∀ a, P a → Runs E R (f a)) : Runs E R (m >>= f) :=
  fun s => (hm s).bind fun r hr => hf r.1 hr r.2

lemma Runs.pure (h : Q a) : Runs E Q (pure a : StateT σ (Except ε) α) := fun _ => .ok h

/-- A computation without a state, among computations over one. -/
lemma Ends.lift (h : Ends E Q x) : Runs E Q (StateT.lift x : StateT σ (Except ε) α) :=
  fun _ => h.bind fun _ ha => .ok ha

lemma runs_modify (f : σ → σ) :
    Runs E (fun _ => True) (modify f : StateT σ (Except ε) PUnit) := fun _ => .ok trivial

end

end Except
