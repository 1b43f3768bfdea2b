import Mathlib.Data.List.Basic

/-!
# Computations whose state is not observable

A fallible computation over a state, such as a cache, may change the state and still
give an outcome that does not depend on it. `Gives I x r` says so relative to an
invariant `I` of the state: from every state in `I`, `x` gives `r` and ends in `I`. The
rules follow the shape of the code, so that a program over a cache gives what the same
program gives without one. Where a part of the program does let the state show, such as
the list of blocks that a cache lacks, `Returns I x Q` says what its value satisfies.
-/

universe u

variable {σ ε α β : Type u}

/-- From every state in `I`, `x` has the outcome `r` and ends in `I`. -/
def Gives (I : σ → Prop) (x : ExceptT ε (StateM σ) α) (r : Except ε α) : Prop :=
  ∀ s, I s → (x.run.run s).1 = r ∧ I (x.run.run s).2

namespace Gives
variable {I : σ → Prop}

lemma pure (a : α) : Gives I (Pure.pure a : ExceptT ε (StateM σ) α) (.ok a) :=
  fun _ hs => ⟨rfl, hs⟩

lemma throw (e : ε) : Gives I (MonadExcept.throw e : ExceptT ε (StateM σ) α) (.error e) :=
  fun _ hs => ⟨rfl, hs⟩

lemma bind {x : ExceptT ε (StateM σ) α} {r : Except ε α} {f : α → ExceptT ε (StateM σ) β}
    {g : α → Except ε β} (hx : Gives I x r) (hf : ∀ a, r = .ok a → Gives I (f a) (g a)) :
    Gives I (x >>= f) (r >>= g) := by
  intro s hs
  obtain ⟨houtcome, hinv⟩ := hx s hs
  rw [ExceptT.run_bind, StateT.run_bind]
  generalize x.run.run s = after at houtcome hinv
  obtain ⟨r', s'⟩ := after
  subst houtcome
  cases r' with
  | error e => exact ⟨rfl, hinv⟩
  | ok a => exact hf a rfl s' hinv

lemma foldlM {f : β → α → ExceptT ε (StateM σ) β} {g : β → α → Except ε β} {xs : List α}
    (h : ∀ b, ∀ a ∈ xs, Gives I (f b a) (g b a)) (b : β) :
    Gives I (xs.foldlM f b) (xs.foldlM g b) := by
  induction xs generalizing b with
  | nil => exact Gives.pure b
  | cons x xs ih =>
    apply (h b x List.mem_cons_self).bind
    intro b' _
    exact ih (fun b a ha => h b a (List.mem_cons_of_mem x ha)) b'

end Gives

/-- From every state in `I`, `x` returns a value in `Q` and ends in `I`. -/
def Returns (I : σ → Prop) (x : ExceptT ε (StateM σ) α) (Q : α → Prop) : Prop :=
  ∀ s, I s → ∃ a, (x.run.run s).1 = .ok a ∧ Q a ∧ I (x.run.run s).2

/-- A computation that does not touch the state. -/
def fromExcept (x : Except ε α) : ExceptT ε (StateM σ) α := ExceptT.mk (Pure.pure x)

/-- The state as it is. -/
def readState : ExceptT ε (StateM σ) σ := ExceptT.mk fun s => (.ok s, s)

/-- A change of the state alone. -/
def updateState {σ ε : Type} (f : σ → σ) : ExceptT ε (StateM σ) Unit :=
  ExceptT.mk fun s => (.ok (), f s)

namespace Returns
variable {I : σ → Prop} {Q : α → Prop}

lemma pure {a : α} (h : Q a) : Returns I (Pure.pure a : ExceptT ε (StateM σ) α) Q :=
  fun _ hs => ⟨a, rfl, h, hs⟩

lemma read : Returns I (readState : ExceptT ε (StateM σ) σ) I :=
  fun s hs => ⟨s, rfl, hs, hs⟩

lemma update {σ ε : Type} {I : σ → Prop} {f : σ → σ} (h : ∀ s, I s → I (f s)) :
    Returns I (updateState f : ExceptT ε (StateM σ) Unit) (fun _ => True) :=
  fun s hs => ⟨(), rfl, trivial, h s hs⟩

lemma mono {P : α → Prop} {x : ExceptT ε (StateM σ) α} (hx : Returns I x P)
    (h : ∀ a, P a → Q a) : Returns I x Q := by
  intro s hs
  obtain ⟨a, ha, hp, hI⟩ := hx s hs
  exact ⟨a, ha, h a hp, hI⟩

lemma bind {P : α → Prop} {R : β → Prop} {x : ExceptT ε (StateM σ) α}
    {f : α → ExceptT ε (StateM σ) β} (hx : Returns I x P) (hf : ∀ a, P a → Returns I (f a) R) :
    Returns I (x >>= f) R := by
  intro s hs
  obtain ⟨a, houtcome, hp, hinv⟩ := hx s hs
  rw [ExceptT.run_bind, StateT.run_bind]
  generalize x.run.run s = after at houtcome hinv
  obtain ⟨r', s'⟩ := after
  subst houtcome
  exact hf a hp s' hinv

lemma step {R : β → Prop} {x : Except ε α} {f : α → ExceptT ε (StateM σ) β} {a : α}
    (hx : x = .ok a) (hf : Returns I (f a) R) : Returns I (fromExcept x >>= f) R :=
  have hfirst : Returns I (fromExcept x : ExceptT ε (StateM σ) α) (· = a) :=
    fun _ hs => ⟨a, hx, rfl, hs⟩
  hfirst.bind fun _ h => h ▸ hf

/-- A loop over a list, with an invariant on what it has gone through. -/
lemma foldlM {f : β → α → ExceptT ε (StateM σ) β} {J : List α → β → Prop} (xs : List α)
    (step : ∀ done b a, a ∈ xs → J done b → Returns I (f b a) (J (done ++ [a]))) :
    ∀ (done : List α) (b : β), J done b → Returns I (xs.foldlM f b) (J (done ++ xs)) := by
  induction xs with
  | nil =>
    intro done b h
    rw [List.append_nil]
    exact Returns.pure h
  | cons x xs ih =>
    intro done b h
    apply (step done b x List.mem_cons_self h).bind
    intro b' h'
    have := ih (fun done b a ha => step done b a (List.mem_cons_of_mem x ha)) (done ++ [x]) b' h'
    rwa [List.append_assoc] at this

end Returns
