/-
Computations that give one result or none.

What a text is turned into is computed step by step, and any step may
refuse, with a fault or without one. A computation made of steps has a
result exactly if each step has one (`Fallible.bind_eq_pure`), and from that
alone follows what it means that a whole list was computed
(`mapM_eq_pure_iff`). A list that is refused is refused with the fault of the
first of its members that is (`mapM_of_first`).
-/
import Mathlib.Data.List.Forall2

namespace Metrograph

-- =============================================================== steps

/-- A monad whose computations have one result or none. -/
class Fallible (m : Type → Type) [Monad m] : Prop where
  pure_injective {β : Type} {b c : β} : (pure b : m β) = pure c → b = c
  /-- What succeeds step by step has succeeded in each step. -/
  bind_eq_pure {β γ : Type} {x : m β} {f : β → m γ} {c : γ} :
    x >>= f = pure c ↔ ∃ b, x = pure b ∧ f b = pure c

instance : Fallible Option where
  pure_injective := Option.some.inj
  bind_eq_pure := Option.bind_eq_some_iff

instance {ε : Type} : Fallible (Except ε) where
  pure_injective := Except.ok.inj
  bind_eq_pure {β _} {x f _} := by
    cases x with
    | error e =>
        refine ⟨fun h => ?_, fun ⟨b, h, _⟩ => ?_⟩
        · cases h
        · cases h
    | ok b =>
        refine ⟨fun h => ⟨b, rfl, h⟩, fun ⟨b', h, hf⟩ => ?_⟩
        cases h
        exact hf

theorem bind_eq_ok {ε β γ : Type} {x : Except ε β} {f : β → Except ε γ} {c : γ} :
    x >>= f = .ok c ↔ ∃ b, x = .ok b ∧ f b = .ok c :=
  Fallible.bind_eq_pure

/-- A result may be looked up without its fault. -/
theorem eq_ok_of_toOption {ε β : Type} {x : Except ε β} {b : β} (h : x.toOption = some b) :
    x = .ok b := by
  cases x with
  | error e => cases h
  | ok b' =>
      cases h
      rfl

-- =============================================================== lists

section

variable {m : Type → Type} [Monad m] [LawfulMonad m] [Fallible m] {β γ : Type}

/-- A whole list succeeds exactly if each of its members does. -/
theorem mapM_eq_pure_iff {f : β → m γ} {xs : List β} {ys : List γ} :
    xs.mapM f = pure ys ↔ List.Forall₂ (fun x y => f x = pure y) xs ys := by
  constructor
  · intro h
    induction xs generalizing ys with
    | nil =>
        cases Fallible.pure_injective (List.mapM_nil.symm.trans h)
        exact .nil
    | cons x rest ih =>
        rw [List.mapM_cons, Fallible.bind_eq_pure] at h
        obtain ⟨y, first, h⟩ := h
        obtain ⟨ys', later, h⟩ := Fallible.bind_eq_pure.mp h
        cases Fallible.pure_injective h
        exact .cons first (ih later)
  · intro each
    induction each with
    | nil => exact List.mapM_nil
    | cons first _ ih => rw [List.mapM_cons, first, pure_bind, ih, pure_bind]

/-- A whole list succeeds with what a function says, if each of its members does. -/
theorem mapM_eq_map {f : β → m γ} {g : β → γ} {xs : List β}
    (each : ∀ x ∈ xs, f x = pure (g x)) : xs.mapM f = pure (xs.map g) :=
  mapM_eq_pure_iff.mpr (List.forall₂_map_right_iff.mpr (List.forall₂_same.mpr each))

/-- A list whose members all come back comes back. -/
theorem mapM_eq_self {f : β → m β} {xs : List β} (each : ∀ x ∈ xs, f x = pure x) :
    xs.mapM f = pure xs :=
  mapM_eq_pure_iff.mpr (List.forall₂_same.mpr each)

end

/-- A whole list fails with the first of its members that does. -/
theorem mapM_of_first {ε β γ : Type} {f : β → Except ε γ} {before : List β} {x : β} {fault : ε}
    (fine : ∀ y ∈ before, ∃ z, f y = .ok z) (fails : f x = .error fault) (after : List β) :
    (before ++ x :: after).mapM f = .error fault := by
  induction before with
  | nil =>
      rw [List.nil_append, List.mapM_cons, fails]
      rfl
  | cons y before ih =>
      obtain ⟨z, done⟩ := fine y List.mem_cons_self
      have later := ih fun w hw => fine w (List.mem_cons_of_mem y hw)
      rw [List.cons_append, List.mapM_cons, done, later]
      rfl

-- ======================================================= member by member

section

variable {β γ : Type} {R : β → γ → Prop} {xs : List β} {ys : List γ}

/-- What was made of a list was each made of one of its members. -/
theorem exists_of_mem_right (h : List.Forall₂ R xs ys) {y : γ} (hy : y ∈ ys) :
    ∃ x ∈ xs, R x y := by
  induction h with
  | nil => cases hy
  | @cons x y' _ _ first _ ih =>
      rcases List.mem_cons.mp hy with rfl | later
      · exact ⟨x, List.mem_cons_self, first⟩
      · obtain ⟨x', hx, related⟩ := ih later
        exact ⟨x', List.mem_cons_of_mem _ hx, related⟩

/-- Each member of a list had something made of it. -/
theorem exists_of_mem_left (h : List.Forall₂ R xs ys) {x : β} (hx : x ∈ xs) : ∃ y ∈ ys, R x y :=
  exists_of_mem_right h.flip hx

/-- What was made by a function is its image. -/
theorem eq_map_of_forall₂ {f : β → γ} (h : List.Forall₂ (fun x y => y = f x) xs ys) :
    ys = xs.map f := by
  have same := List.forall₂_map_left_iff.mpr (h.imp fun _ _ => Eq.symm)
  rw [List.forall₂_eq_eq_eq] at same
  exact same.symm

end

end Metrograph
