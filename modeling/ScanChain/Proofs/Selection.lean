/-
# ScanChain.Proofs.Selection — compiling every chain is compiling each alone

All chains of a descriptor are built before any of them is compiled; a chain that is named is built
and compiled at once. The two ways differ in which refusal comes first and in nothing else: once all
chains are built, compiling them is running the named compilation on each name (`compileAll_eq`).
No state is handed on from one chain to the next, so what is returned for a name is what that name
alone gives.
-/
import ScanChain.Proofs.Compiling

namespace ScanChain

/-! ## Names -/

theorem Chain.name_of_ofSegments {name : String} {segments : List Segment} {chain : Chain}
    (h : Chain.ofSegments name segments = .ok chain) : chain.name = name := by
  unfold Chain.ofSegments at h
  split at h
  · cases h
  split at h
  · cases h
  split at h
  · cases h
  · cases h
    rfl

namespace Descriptor

variable {descriptor : Descriptor}

/-- A chain is built under the name that it has in the descriptor. -/
theorem name_of_chain {name : String} {chain : Chain} (h : descriptor.chain name = .ok chain) :
    chain.name = name := by
  unfold Descriptor.chain at h
  split at h
  · cases h
  · obtain ⟨segments, -, hchain⟩ := bind_eq_ok_iff.mp h
    exact Chain.name_of_ofSegments hchain

/-- The names of a descriptor are in the order of their bytes, each once. -/
theorem pairwise_utf8_names (descriptor : Descriptor) :
    (descriptor.names.map Text.utf8).Pairwise (· < ·) := by
  rw [names, NameTable.names, List.map_map, List.pairwise_map]
  exact descriptor.chains.ascending.imp Text.utf8_lt

end Descriptor

namespace Config

variable {config : Config} {descriptor : Descriptor} {policy : Policy}

/-! ## One chain -/

theorem compileChain_of_chain {name : String} {chain : Chain}
    (h : descriptor.chain name = .ok chain) :
    config.compileChain descriptor name policy = config.compile (config.layout chain) policy := by
  rw [compileChain, h]
  rfl

/-- What is compiled under a name bears that name. -/
theorem chain_of_compileChain {name : String} {compiled : Compiled}
    (h : config.compileChain descriptor name policy = .ok compiled) : compiled.chain = name := by
  obtain ⟨chain, hchain, hcompile⟩ := bind_eq_ok_iff.mp h
  have hname := Descriptor.name_of_chain (mapError_eq_ok_iff.mp hchain)
  exact (compile_eq_ok_iff.mp hcompile).1.trans hname

/-- A chain that compiles has been built. -/
theorem exists_chain_of_compileChain {name : String} {compiled : Compiled}
    (h : config.compileChain descriptor name policy = .ok compiled) :
    ∃ chain, descriptor.chain name = .ok chain := by
  obtain ⟨chain, hchain, -⟩ := bind_eq_ok_iff.mp h
  exact ⟨chain, mapError_eq_ok_iff.mp hchain⟩

/-! ## Every chain -/

theorem compileAll_of_refusal {cause : ChainError} (h : descriptor.allChains = .error cause) :
    config.compileAll descriptor policy = .error (.chain cause) := by
  rw [compileAll, h]
  rfl

/-- Once all chains are built, every name is compiled as it is alone. -/
theorem compileAll_eq {chains : List Chain} (h : descriptor.allChains = .ok chains) :
    config.compileAll descriptor policy =
      descriptor.names.mapM fun name => config.compileChain descriptor name policy := by
  rw [compileAll, h]
  show chains.mapM _ = _
  refine (mapM_congr ?_).symm
  exact (mapM_eq_ok_iff.mp h).imp fun _ _ hchain => compileChain_of_chain hchain

theorem compileAll_eq_ok_iff {all : List Compiled} :
    config.compileAll descriptor policy = .ok all ↔
      List.Forall₂ (fun name compiled => config.compileChain descriptor name policy = .ok compiled)
        descriptor.names all := by
  rw [← mapM_eq_ok_iff]
  cases hchains : descriptor.allChains with
  | ok chains => rw [compileAll_eq hchains]
  | error cause =>
    rw [compileAll_of_refusal hchains]
    refine iff_of_false (by rintro ⟨⟩) ?_
    -- Chains that all compile have all been built.
    intro hall
    have hbuilt : ∃ chains, descriptor.allChains = .ok chains :=
      exists_mapM_eq_ok_iff.mpr fun name hname => by
        obtain ⟨compiled, h⟩ := exists_mapM_eq_ok_iff.mp ⟨all, hall⟩ name hname
        exact exists_chain_of_compileChain h
    obtain ⟨chains, h⟩ := hbuilt
    rw [hchains] at h
    cases h

/-- The chains that are returned bear the names of the descriptor. -/
theorem chains_of_compileAll {names : List String} {all : List Compiled}
    (h : List.Forall₂
      (fun name compiled => config.compileChain descriptor name policy = .ok compiled) names all) :
    all.map (·.chain) = names := by
  induction h with
  | nil => rfl
  | cons hfirst _ ih => rw [List.map_cons, chain_of_compileChain hfirst, ih]

/-- The first chain that cannot be built is named, and if all can, the first that does not
compile. -/
theorem compileAll_eq_error_iff {e : CompileError} :
    config.compileAll descriptor policy = .error e ↔
      (∃ cause, RefusedFirst descriptor.chain descriptor.names cause ∧ e = .chain cause) ∨
        (∀ name ∈ descriptor.names, ∃ chain, descriptor.chain name = .ok chain) ∧
          RefusedFirst (fun name => config.compileChain descriptor name policy)
            descriptor.names e := by
  rw [← exists_mapM_eq_ok_iff]
  simp only [← mapM_eq_error_iff]
  show _ ↔ (∃ cause, descriptor.allChains = .error cause ∧ _) ∨
    (∃ chains, descriptor.allChains = .ok chains) ∧ _
  cases hchains : descriptor.allChains with
  | ok chains =>
    rw [compileAll_eq hchains]
    simp
  | error cause =>
    rw [compileAll_of_refusal hchains]
    simp [eq_comm]

/-- Compiling every chain succeeds exactly if compiling each by its name does. Then the chains are
returned in the order of the bytes of their names, each once, and each is what its name alone gives.
Otherwise the first chain that cannot be built is named, and if all can, the first that does not
compile. -/
theorem compiling_all_is_compiling_each (config : Config) (descriptor : Descriptor)
    (policy : Policy) :
    ((∃ all, config.compileSelected descriptor none policy = .ok all) ↔
        ∀ name ∈ descriptor.names,
          ∃ one, config.compileSelected descriptor (some name) policy = .ok one) ∧
      (∀ all, config.compileSelected descriptor none policy = .ok all →
        all.map (·.chain) = descriptor.names ∧
        (all.map fun compiled => Text.utf8 compiled.chain).Pairwise (· < ·) ∧
        ∀ compiled ∈ all,
          config.compileSelected descriptor (some compiled.chain) policy = .ok [compiled]) ∧
      ∀ e, config.compileSelected descriptor none policy = .error e ↔
        (∃ cause, RefusedFirst descriptor.chain descriptor.names cause ∧ e = .chain cause) ∨
          (∀ name ∈ descriptor.names, ∃ chain, descriptor.chain name = .ok chain) ∧
            RefusedFirst (fun name => config.compileSelected descriptor (some name) policy)
              descriptor.names e := by
  refine ⟨?_, ?_, ?_⟩
  · have hone (name : String) :
        (∃ one, config.compileSelected descriptor (some name) policy = .ok one) ↔
          ∃ compiled, config.compileChain descriptor name policy = .ok compiled :=
      exists_map_eq_ok_iff
    simp only [hone, ← exists_mapM_eq_ok_iff, mapM_eq_ok_iff]
    simp only [compileSelected, compileAll_eq_ok_iff]
  · intro all hall
    have heach := compileAll_eq_ok_iff.mp hall
    have hnames : all.map (·.chain) = descriptor.names := chains_of_compileAll heach
    refine ⟨hnames, ?_, ?_⟩
    · have hsorted := descriptor.pairwise_utf8_names
      rwa [← hnames, List.map_map] at hsorted
    · intro compiled hmem
      have hcompile : config.compileChain descriptor compiled.chain policy = .ok compiled := by
        rw [← hnames, List.forall₂_map_left_iff, List.forall₂_same] at heach
        exact heach compiled hmem
      exact map_eq_ok_iff.mpr ⟨compiled, hcompile, rfl⟩
  · intro e
    simp only [compileSelected, refusedFirst_map]
    exact compileAll_eq_error_iff

end Config
end ScanChain
