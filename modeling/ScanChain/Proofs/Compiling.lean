/-
# ScanChain.Proofs.Compiling — compiling fails only where resolving does

What resolving returns has the names and the widths that packing asks for, and an image that is
made twice from the same values is the same image. So neither packing nor verification adds a
failure, and every failure of a compilation is a refusal of the policy.
-/
import ScanChain.Compilation.Basic
import ScanChain.Proofs.Resolving

namespace ScanChain

/-! ## Comparing words with themselves -/

theorem matchingWords_self (words : List UInt32) : matchingWords words words = words.length := by
  induction words with
  | nil => rfl
  | cons word words ih =>
    unfold matchingWords
    rw [if_pos rfl, ih, List.length_cons]

theorem ChainLayout.compare_self (layout : ChainLayout) (checksum : Bool) (words : List UInt32) :
    (layout.compare checksum words words).divergence = none := by
  unfold ChainLayout.compare compareBy
  apply if_neg
  rw [matchingWords_self, Nat.min_self]
  simp

namespace Config

variable {config : Config} {layout : ChainLayout} {policy : Policy}

/-! ## One compilation -/

/-- Values that were resolved are packed. -/
theorem compileOnce_of_resolve (config : Config) {resolved : List ResolvedSegment}
    (h : layout.resolve policy = .ok resolved) :
    ∃ image, layout.pack resolved config.checksum = .ok image ∧
      config.compileOnce layout policy = .ok (resolved, image) := by
  obtain ⟨image, hpack⟩ := ChainLayout.exists_pack_of_resolve h config.checksum
  refine ⟨image, hpack, ?_⟩
  unfold compileOnce
  refine bind_eq_ok_iff.mpr ⟨resolved, mapError_eq_ok_iff.mpr h, ?_⟩
  exact bind_eq_ok_iff.mpr ⟨_, mapError_eq_ok_iff.mpr hpack, rfl⟩

theorem compileOnce_of_refusal {cause : Policy.Error} (h : layout.resolve policy = .error cause) :
    config.compileOnce layout policy = .error (.policy cause) := by
  unfold compileOnce
  rw [h]
  rfl

/-- Verification changes nothing: the second image is the first. -/
theorem compile_eq (config : Config) (layout : ChainLayout) (policy : Policy) :
    config.compile layout policy =
      (config.compileOnce layout policy).map fun made =>
        ⟨layout.chain.name, made.1, made.2⟩ := by
  unfold compile
  cases hmade : config.compileOnce layout policy with
  | error e => rfl
  | ok made =>
    obtain ⟨resolved, image⟩ := made
    show (if config.verify = true then _ else _) = _
    split
    · -- Both images are the same, so there is no word to report.
      have hsame := layout.compare_self config.checksum image.words
      simp only [bind, Except.bind, hsame]
      rfl
    · rfl

/-- Compiling succeeds on resolved values, with the image that packing makes of them. -/
theorem compile_of_resolve (config : Config) {resolved : List ResolvedSegment}
    (h : layout.resolve policy = .ok resolved) :
    ∃ image, layout.pack resolved config.checksum = .ok image ∧
      config.compile layout policy = .ok ⟨layout.chain.name, resolved, image⟩ := by
  obtain ⟨image, hpack, hmade⟩ := compileOnce_of_resolve config h
  refine ⟨image, hpack, ?_⟩
  rw [compile_eq, hmade]
  rfl

theorem compile_of_refusal {cause : Policy.Error} (h : layout.resolve policy = .error cause) :
    config.compile layout policy = .error (.policy cause) := by
  rw [compile_eq, compileOnce_of_refusal h]
  rfl

/-- Compiling succeeds exactly where resolving does, with the resolved values and their image. -/
theorem compile_eq_ok_iff {compiled : Compiled} :
    config.compile layout policy = .ok compiled ↔
      compiled.chain = layout.chain.name ∧ layout.resolve policy = .ok compiled.resolved ∧
        layout.pack compiled.resolved config.checksum = .ok compiled.image := by
  obtain ⟨chain, resolved, image⟩ := compiled
  refine ⟨?_, ?_⟩
  · intro h
    cases hresolve : layout.resolve policy with
    | error cause =>
      rw [compile_of_refusal hresolve] at h
      cases h
    | ok values =>
      obtain ⟨made, hpack, hcompile⟩ := compile_of_resolve config hresolve
      rw [hcompile] at h
      cases h
      exact ⟨rfl, rfl, hpack⟩
  · rintro ⟨hchain, hresolve, hpack⟩
    obtain ⟨made, hmade, hcompile⟩ := compile_of_resolve config hresolve
    obtain rfl : made = image := Except.ok.inj (hmade.symm.trans hpack)
    obtain rfl : chain = layout.chain.name := hchain
    exact hcompile

/-- Compiling fails exactly where resolving does, for the same reason. -/
theorem compile_eq_error_iff {e : CompileError} :
    config.compile layout policy = .error e ↔
      ∃ cause, layout.resolve policy = .error cause ∧ e = .policy cause := by
  refine ⟨?_, ?_⟩
  · intro h
    cases hresolve : layout.resolve policy with
    | error cause =>
      rw [compile_of_refusal hresolve] at h
      cases h
      exact ⟨cause, rfl, rfl⟩
    | ok values =>
      obtain ⟨made, -, hcompile⟩ := compile_of_resolve config hresolve
      rw [hcompile] at h
      cases h
  · rintro ⟨cause, hresolve, rfl⟩
    exact compile_of_refusal hresolve

/-- A policy is taken exactly if its probability is in range and every number and bit string has
room in each field that takes it. Then each field has its width and is, as a number, what it takes;
otherwise the probability or the first field without room is named. No configuration adds a
failure. -/
theorem compiles_without_truncation (layout : ChainLayout) (policy : Policy) :
    ((∃ resolved, layout.resolve policy = .ok resolved) ↔
        policy.probability.InUnit ∧ ∀ entry ∈ layout.fields, policy.Fits entry.2) ∧
      (∀ resolved, layout.resolve policy = .ok resolved →
        List.Forall₂ policy.FillsSegment layout.segments resolved) ∧
      (∀ e, layout.resolve policy = .error e ↔
        ¬ policy.probability.InUnit ∧ e = .probabilityOutOfRange policy.probability ∨
          policy.probability.InUnit ∧ policy.RefusesFirst layout.fields e) ∧
      ∀ config : Config,
        ((∃ compiled, config.compile layout policy = .ok compiled) ↔
          ∃ resolved, layout.resolve policy = .ok resolved) ∧
        (∀ compiled, config.compile layout policy = .ok compiled ↔
          compiled.chain = layout.chain.name ∧ layout.resolve policy = .ok compiled.resolved ∧
            layout.pack compiled.resolved config.checksum = .ok compiled.image) ∧
        ∀ e, config.compile layout policy = .error e ↔
          ∃ cause, layout.resolve policy = .error cause ∧ e = .policy cause := by
  refine ⟨ChainLayout.exists_resolve_iff, ?_, ?_, fun config => ⟨?_, ?_, ?_⟩⟩
  · intro resolved h
    exact ChainLayout.resolve_fills h
  · intro e
    exact ChainLayout.resolve_eq_error_iff
  · refine ⟨?_, ?_⟩
    · rintro ⟨compiled, h⟩
      exact ⟨_, (compile_eq_ok_iff.mp h).2.1⟩
    · rintro ⟨resolved, h⟩
      obtain ⟨image, -, hcompile⟩ := compile_of_resolve config h
      exact ⟨_, hcompile⟩
  · intro compiled
    exact compile_eq_ok_iff
  · intro e
    exact compile_eq_error_iff

end Config
end ScanChain
