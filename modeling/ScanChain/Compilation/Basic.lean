/-
# ScanChain.Compilation.Basic — from a described chain and a policy to an image

Compiling resolves a policy against the layout of a chain and packs the values. With `verify` set it is
done twice and the two images are compared. From a descriptor one chain is compiled, or all of them in
the order of their names; then every chain is built before any is compiled.
-/
import ScanChain.Comparison.Basic
import ScanChain.Descriptor.Basic

namespace ScanChain

/-- How chains are compiled. -/
structure Config where
  header : HeaderKind
  /-- Images have a checksum word. -/
  checksum : Bool
  /-- Every chain is compiled twice. -/
  verify : Bool
deriving DecidableEq

instance : Inhabited Config := ⟨⟨.fingerprint, false, false⟩⟩

/-- Why a chain does not compile. -/
inductive CompileError where
  | chain (cause : ChainError)
  | policy (cause : Policy.Error)
  | pack (cause : PackError)
  /-- The second image differs from the first. -/
  | nondeterministic (chain : String) (divergence : Divergence)
deriving DecidableEq

/-- The failure in words. -/
def CompileError.message : CompileError → String
  | chain cause => cause.message
  | policy cause => cause.message
  | pack cause => cause.message
  | nondeterministic name divergence =>
    "chain " ++ Text.quoted name ++ " compiled to different images from the same inputs\n" ++
      divergence.text

/-- A chain's values and image under a policy. -/
structure Compiled where
  chain : String
  resolved : List ResolvedSegment
  image : Image
deriving DecidableEq

namespace Config

/-- The layout of a chain with the header of the configuration. -/
def layout (config : Config) (chain : Chain) : ChainLayout := ⟨chain, config.header⟩

/-- The values and the image of a layout under a policy. -/
def compileOnce (config : Config) (layout : ChainLayout) (policy : Policy) :
    Except CompileError (List ResolvedSegment × Image) := do
  let resolved ← (layout.resolve policy).mapError .policy
  let image ← (layout.pack resolved config.checksum).mapError .pack
  return (resolved, image)

/-- Compiles a layout under a policy. -/
def compile (config : Config) (layout : ChainLayout) (policy : Policy) :
    Except CompileError Compiled := do
  let (resolved, image) ← config.compileOnce layout policy
  if config.verify then
    let (_, again) ← config.compileOnce layout policy
    match (layout.compare config.checksum image.words again.words).divergence with
    | some divergence => throw (.nondeterministic layout.chain.name divergence)
    | none => pure ()
  return ⟨layout.chain.name, resolved, image⟩

/-- Compiles the chain of a name. -/
def compileChain (config : Config) (descriptor : Descriptor) (name : String) (policy : Policy) :
    Except CompileError Compiled := do
  let chain ← (descriptor.chain name).mapError .chain
  config.compile (config.layout chain) policy

/-- Compiles every chain, in the order of their names. -/
def compileAll (config : Config) (descriptor : Descriptor) (policy : Policy) :
    Except CompileError (List Compiled) := do
  let chains ← descriptor.allChains.mapError .chain
  chains.mapM fun chain => config.compile (config.layout chain) policy

/-- Compiles the chain of a name, or every chain if none is named. -/
def compileSelected (config : Config) (descriptor : Descriptor) (name : Option String)
    (policy : Policy) : Except CompileError (List Compiled) :=
  match name with
  | some name => (config.compileChain descriptor name policy).map ([·])
  | none => config.compileAll descriptor policy

end Config
end ScanChain
