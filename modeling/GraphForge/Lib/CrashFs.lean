import Mathlib.Data.List.Basic

/-!
# Programs over a directory that may be stopped at any step

A directory maps names to file contents. A program reads it and takes steps: it creates files,
appends to them, renames and unlinks. Steps take effect one at a time, in program order. A crash
leaves the directory as the first `n` steps have made it, so what matters about a program is the
list of steps it takes from a directory, besides the result it returns.
-/

namespace CrashFs

open Function

variable {ν β ε α γ : Type}

/-- File contents by name. -/
abbrev Directory (ν β : Type) := ν → Option (List β)

/-- The steps that change a directory; each happens as a whole or not at all. -/
inductive Step (ν β : Type) where
  | create (name : ν)
  | append (name : ν) (content : List β)
  | rename (source target : ν)
  | unlink (name : ν)
  deriving DecidableEq

/-- The names a step may change. -/
def Step.names : Step ν β → List ν
  | .create name => [name]
  | .append name _ => [name]
  | .rename source target => [source, target]
  | .unlink name => [name]

/-- The steps are about these names only. -/
def Touches (steps : List (Step ν β)) (names : List ν) : Prop := ∀ s ∈ steps, s.names ⊆ names
variable {steps : List (Step ν β)} {names : List ν} {name : ν} {d : Directory ν β}

/-- Steps that touch the names, one after the other. -/
lemma Touches.append {rest : List (Step ν β)} (h : Touches steps names) (hrest : Touches rest names) :
    Touches (steps ++ rest) names :=
  fun s hs => (List.mem_append.mp hs).elim (h s) (hrest s)

/-- The start of steps touches no more than they do. -/
lemma Touches.take (h : Touches steps names) (n : ℕ) : Touches (steps.take n) names :=
  fun s hs => h s (List.mem_of_mem_take hs)

lemma Touches.mono {more : List ν} (h : Touches steps names) (hsub : names ⊆ more) :
    Touches steps more :=
  fun s hs => List.Subset.trans (h s hs) hsub

variable [DecidableEq ν]

/-- The directory after one step. Renaming replaces the target. -/
def Step.apply (d : Directory ν β) : Step ν β → Directory ν β
  | .create name => update d name (some [])
  | .append name content => update d name ((d name).map (· ++ content))
  | .rename source target => update (update d target (d source)) source none
  | .unlink name => update d name none

/-- The directory after a list of steps. -/
def applyAll (d : Directory ν β) (steps : List (Step ν β)) : Directory ν β :=
  steps.foldl Step.apply d

@[simp] lemma applyAll_nil (d : Directory ν β) : applyAll d [] = d := rfl

@[simp] lemma applyAll_cons (d : Directory ν β) (s : Step ν β) (steps : List (Step ν β)) :
    applyAll d (s :: steps) = applyAll (s.apply d) steps := rfl

/-- Steps one after the other. -/
lemma applyAll_append (d : Directory ν β) (steps rest : List (Step ν β)) :
    applyAll d (steps ++ rest) = applyAll (applyAll d steps) rest :=
  List.foldl_append

/-- A step leaves a file it does not name alone. -/
lemma Step.apply_of_notMem {s : Step ν β} (h : name ∉ s.names) : s.apply d name = d name := by
  cases s with
  | create other => exact update_of_ne (by simpa [names] using h) _ _
  | append other content => exact update_of_ne (by simpa [names] using h) _ _
  | rename source target =>
    have hne : name ≠ source ∧ name ≠ target := by simpa [names] using h
    show update (update d target (d source)) source none name = d name
    rw [update_of_ne hne.1, update_of_ne hne.2]
  | unlink other => exact update_of_ne (by simpa [names] using h) _ _

lemma Step.apply_unlink_self (d : Directory ν β) (name : ν) :
    Step.apply d (.unlink name) name = none := by
  show update d name none name = none
  exact update_self _ _ _

/-- A rename moves the content. -/
lemma Step.apply_rename_target {source target : ν} (h : target ≠ source) :
    Step.apply d (.rename source target) target = d source := by
  show update (update d target (d source)) source none target = d source
  rw [update_of_ne h, update_self]

lemma Step.apply_rename_of_ne {source target : ν} (hs : name ≠ source) (ht : name ≠ target) :
    Step.apply d (.rename source target) name = d name := by
  apply Step.apply_of_notMem
  simp [names, hs, ht]

/-- Steps leave every file that they do not touch alone. -/
lemma Touches.frame (h : Touches steps names) (hname : name ∉ names) :
    applyAll d steps name = d name := by
  induction steps generalizing d with
  | nil => rfl
  | cons s steps ih =>
    rw [applyAll_cons, ih fun s' hs' => h s' (List.mem_cons_of_mem s hs')]
    exact Step.apply_of_notMem fun hmem => hname (h s List.mem_cons_self hmem)

/-- Appending piece after piece to a file. -/
lemma applyAll_append_pieces {content : List β} (h : d name = some content) (pieces : List (List β)) :
    applyAll d (pieces.map (Step.append name)) name = some (content ++ pieces.flatten) := by
  induction pieces generalizing d content with
  | nil => simpa using h
  | cons piece pieces ih =>
    have hstep : (Step.append name piece).apply d name = some (content ++ piece) := by
      show update d name ((d name).map (· ++ piece)) name = _
      rw [update_self, h]
      rfl
    rw [List.map_cons, applyAll_cons, ih hstep, List.flatten_cons, List.append_assoc]

/-- A crash in one of two parts. -/
lemma applyAll_take_append (d : Directory ν β) (steps rest : List (Step ν β)) (n : ℕ) :
    applyAll d ((steps ++ rest).take n)
      = applyAll (applyAll d (steps.take n)) (rest.take (n - steps.length)) := by
  rw [List.take_append, applyAll_append]

/-! ## Programs -/

/-- From a directory, the steps a program takes and its result. -/
structure Program (ν β ε α : Type) where
  run : Directory ν β → List (Step ν β) × Except ε α

namespace Program

/-- Do nothing and return. -/
def ret (a : α) : Program ν β ε α := ⟨fun _ => ([], .ok a)⟩

/-- Go on from the directory the first part leaves, unless it failed. -/
def andThen (x : Program ν β ε α) (f : α → Program ν β ε γ) : Program ν β ε γ := ⟨fun d =>
  match x.run d with
  | (steps, .error e) => (steps, .error e)
  | (steps, .ok a) =>
    (steps ++ ((f a).run (applyAll d steps)).1, ((f a).run (applyAll d steps)).2)⟩

instance : Monad (Program ν β ε) where
  pure := ret
  bind := andThen

/-- The directory as it is now. -/
def read : Program ν β ε (Directory ν β) := ⟨fun d => ([], .ok d)⟩

/-- A computation that does not touch the directory. -/
def ofExcept (x : Except ε α) : Program ν β ε α := ⟨fun _ => ([], x)⟩

/-- Take one step. -/
def perform (s : Step ν β) : Program ν β ε Unit := ⟨fun _ => ([s], .ok ())⟩

/-- Take several steps. -/
def performAll (steps : List (Step ν β)) : Program ν β ε Unit := ⟨fun _ => (steps, .ok ())⟩

/-- The directory after the program. -/
def final (x : Program ν β ε α) (d : Directory ν β) : Directory ν β := applyAll d (x.run d).1

/-- The directory a crash after `n` steps leaves. -/
def cut (x : Program ν β ε α) (n : ℕ) (d : Directory ν β) : Directory ν β :=
  applyAll d ((x.run d).1.take n)

/-- A program that succeeds is followed by the next one, on the directory it leaves. -/
lemma bind_of_ok {x : Program ν β ε α} {f : α → Program ν β ε γ} {a : α}
    (h : x.run d = (steps, .ok a)) :
    (x >>= f).run d
      = (steps ++ ((f a).run (applyAll d steps)).1, ((f a).run (applyAll d steps)).2) := by
  show (andThen x f).run d = _
  unfold andThen
  simp only [h]

/-- Reading the directory takes no step. -/
lemma read_bind (f : Directory ν β → Program ν β ε γ) (d : Directory ν β) :
    (read >>= f).run d = (f d).run d :=
  rfl

/-- A pure result takes no step. -/
lemma ofExcept_bind {x : Except ε α} {f : α → Program ν β ε γ} {a : α} (h : x = .ok a) :
    (ofExcept x >>= f).run d = (f a).run d := by
  rw [h]
  rfl

/-- A pure error ends the program. -/
lemma ofExcept_error_bind {x : Except ε α} {f : α → Program ν β ε γ} {e : ε} (h : x = .error e) :
    (ofExcept x >>= f).run d = ([], .error e) := by
  rw [h]
  rfl

end Program

end CrashFs
