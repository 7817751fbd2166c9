/-
# ScanChain.Proofs.Outcome — taking results with refusals apart

Every stage of a compilation ends in a value or in the first refusal. These are the inversion
lemmas of the ways in which stages are joined: a stage that goes on from a value, a value that is
rewrapped, and a stage that is run on every entry of a list.
-/
import Mathlib.Data.List.Forall2

namespace ScanChain

variable {ε ε' α β : Type} {x : Except ε α}

theorem bind_eq_ok_iff {f : α → Except ε β} {b : β} :
    (x >>= f) = .ok b ↔ ∃ a, x = .ok a ∧ f a = .ok b := by
  cases x <;> simp [bind, Except.bind]

theorem bind_eq_error_iff {f : α → Except ε β} {e : ε} :
    (x >>= f) = .error e ↔ x = .error e ∨ ∃ a, x = .ok a ∧ f a = .error e := by
  cases x <;> simp [bind, Except.bind]

theorem map_eq_ok_iff {f : α → β} {b : β} :
    x.map f = .ok b ↔ ∃ a, x = .ok a ∧ f a = b := by
  cases x <;> simp [Except.map]

theorem exists_map_eq_ok_iff {f : α → β} : (∃ b, x.map f = .ok b) ↔ ∃ a, x = .ok a := by
  cases x <;> simp [Except.map]

theorem map_eq_error_iff {f : α → β} {e : ε} : x.map f = .error e ↔ x = .error e := by
  cases x <;> simp [Except.map]

theorem mapError_eq_ok_iff {f : ε → ε'} {a : α} : x.mapError f = .ok a ↔ x = .ok a := by
  cases x with
  | error d =>
    show Except.error (f d) = .ok a ↔ _
    simp
  | ok b =>
    show Except.ok b = .ok a ↔ _
    simp

/-- A result is a value exactly if it is no refusal. -/
theorem exists_eq_ok_iff : (∃ a, x = .ok a) ↔ ∀ e, x ≠ .error e := by
  cases x <;> simp

/-! ## Lists of stages -/

/-- The refusal of the first entry that is refused; every entry before it is taken. -/
def RefusedFirst (run : α → Except ε β) (entries : List α) (e : ε) : Prop :=
  ∃ before a after, entries = before ++ a :: after ∧ (∀ c ∈ before, ∃ b, run c = .ok b) ∧
    run a = .error e

section Lists

variable {run : α → Except ε β} {entries : List α}

theorem refusedFirst_cons {a : α} {e : ε} :
    RefusedFirst run (a :: entries) e ↔
      run a = .error e ∨ (∃ b, run a = .ok b) ∧ RefusedFirst run entries e := by
  constructor
  · rintro ⟨before, c, after, hsplit, hbefore, hrefused⟩
    cases before with
    | nil =>
      cases hsplit
      exact Or.inl hrefused
    | cons d before =>
      cases hsplit
      obtain ⟨htaken, hbefore⟩ := List.forall_mem_cons.mp hbefore
      exact Or.inr ⟨htaken, before, c, after, rfl, hbefore, hrefused⟩
  · rintro (hrefused | ⟨htaken, before, c, after, rfl, hbefore, hrefused⟩)
    · exact ⟨[], a, entries, rfl, by simp, hrefused⟩
    · exact ⟨a :: before, c, after, rfl, List.forall_mem_cons.mpr ⟨htaken, hbefore⟩, hrefused⟩

/-- A stage that is run on every entry returns one value for each. -/
theorem mapM_eq_ok_iff {values : List β} :
    entries.mapM run = .ok values ↔ List.Forall₂ (fun a b => run a = .ok b) entries values := by
  induction entries generalizing values with
  | nil =>
    rw [List.mapM_nil, List.forall₂_nil_left_iff]
    show Except.ok [] = .ok values ↔ _
    rw [Except.ok.injEq, eq_comm]
  | cons a entries ih =>
    rw [List.mapM_cons, List.forall₂_cons_left_iff]
    simp only [bind_eq_ok_iff, ih]
    constructor
    · rintro ⟨b, hb, rest, hrest, hvalues⟩
      exact ⟨b, rest, hb, hrest, (Except.ok.inj hvalues).symm⟩
    · rintro ⟨b, rest, hb, hrest, rfl⟩
      exact ⟨b, hb, rest, hrest, rfl⟩

/-- A stage that is run on every entry refuses with the first entry. -/
theorem mapM_eq_error_iff {e : ε} :
    entries.mapM run = .error e ↔ RefusedFirst run entries e := by
  induction entries with
  | nil =>
    refine iff_of_false ?_ ?_
    · rintro ⟨⟩
    · rintro ⟨before, a, after, hsplit, -⟩
      simp at hsplit
  | cons a entries ih =>
    rw [List.mapM_cons, refusedFirst_cons, bind_eq_error_iff, ← ih]
    simp only [bind_eq_error_iff]
    constructor
    · rintro (hrefused | ⟨b, hb, hrest | ⟨values, -, ⟨⟩⟩⟩)
      · exact Or.inl hrefused
      · exact Or.inr ⟨⟨b, hb⟩, hrest⟩
    · rintro (hrefused | ⟨⟨b, hb⟩, hrest⟩)
      · exact Or.inl hrefused
      · exact Or.inr ⟨b, hb, Or.inl hrest⟩

/-- A stage that is run on every entry succeeds exactly if it does on each. -/
theorem exists_mapM_eq_ok_iff :
    (∃ values, entries.mapM run = .ok values) ↔ ∀ a ∈ entries, ∃ b, run a = .ok b := by
  induction entries with
  | nil => exact iff_of_true ⟨[], rfl⟩ (by simp)
  | cons a entries ih =>
    rw [List.forall_mem_cons, ← ih]
    simp only [List.mapM_cons, bind_eq_ok_iff]
    constructor
    · rintro ⟨-, b, hb, rest, hrest, -⟩
      exact ⟨⟨b, hb⟩, rest, hrest⟩
    · rintro ⟨⟨b, hb⟩, rest, hrest⟩
      exact ⟨_, b, hb, rest, hrest, rfl⟩

/-- Rewrapped values leave the first refusal alone. -/
theorem refusedFirst_map {γ : Type} {f : β → γ} {e : ε} :
    RefusedFirst (fun a => (run a).map f) entries e ↔ RefusedFirst run entries e := by
  simp only [RefusedFirst, exists_map_eq_ok_iff, map_eq_error_iff]

/-- Entries that are taken alike are run alike. -/
theorem mapM_congr {γ : Type} {other : γ → Except ε β} {others : List γ}
    (h : List.Forall₂ (fun a c => run a = other c) entries others) :
    entries.mapM run = others.mapM other := by
  induction h with
  | nil => rfl
  | cons hfirst _ ih => rw [List.mapM_cons, List.mapM_cons, hfirst, ih]

end Lists

end ScanChain
