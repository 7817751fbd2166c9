/-
# ScanChain.Proofs.Running — commands on a state with a file tree

A command that runs on a state with a tree in it comes to a result, a text that has been printed and a
state; when it is refused, the text and the state are those that the refused step has met. This is what
the steps of a command do to the three, one lemma for each way in which steps are joined. Commands start
by reading only (`ReadsOnly`): until the first write, text and tree are as they were.
-/
import ScanChain.Command.Run
import ScanChain.Proofs.Volume

namespace ScanChain.Command

/-- Where a command that runs on a state has come to. -/
structure Reached (σ α : Type) where
  result : Except CommandError α
  printed : String
  state : σ

/-- What a command comes to from a text that has been printed and a state. -/
def reach {σ α : Type} (x : Run (StateM σ) α) (printed : String) (state : σ) : Reached σ α :=
  let ((result, printed), state) := Id.run ((x.run.run printed).run state)
  ⟨result, printed, state⟩

/-- What a command line comes to on a state, and the state that it leaves. -/
def runOn {σ : Type} [Volume σ] (state : σ) (line : List String) : Outcome × σ :=
  Id.run (StateT.run (runLine line) state)

variable {σ α β : Type} {x : Run (StateM σ) α} {next : α → Run (StateM σ) β}
  {printed printed' : String} {state state' : σ}

/-! ## Steps -/

theorem reach_printLine (line : String) :
    reach (printLine line) printed state = ⟨.ok (), printed ++ (line ++ "\n"), state⟩ := rfl

theorem reach_orFail {ε : Type} (wrap : ε → CommandError) (result : Except ε α) :
    reach (orFail wrap result) printed state = ⟨result.mapError wrap, printed, state⟩ := by
  cases result <;> rfl

/-- A file operation is a step that is never refused by itself: its refusal is what it returns. -/
theorem reach_operation (operation : StateM σ α) :
    reach (operation : Run (StateM σ) α) printed state =
      ⟨.ok (Id.run (operation.run state)).1, printed, (Id.run (operation.run state)).2⟩ := rfl

theorem reach_bind : reach (x >>= next) printed state =
    match reach x printed state with
    | ⟨.ok a, printed, state⟩ => reach (next a) printed state
    | ⟨.error e, printed, state⟩ => ⟨.error e, printed, state⟩ := by
  simp only [reach, ExceptT.run_bind, StateT.run_bind, Id.run_bind]
  rcases Id.run ((x.run.run printed).run state) with ⟨⟨result, text⟩, after⟩
  cases result <;> rfl

theorem reach_bind_of_ok {a : α} (h : reach x printed state = ⟨.ok a, printed', state'⟩) :
    reach (x >>= next) printed state = reach (next a) printed' state' := by
  rw [reach_bind, h]

theorem reach_bind_of_error {e : CommandError}
    (h : reach x printed state = ⟨.error e, printed', state'⟩) :
    reach (x >>= next) printed state = ⟨.error e, printed', state'⟩ := by
  rw [reach_bind, h]

/-- Running a step on every entry starts with the first. -/
theorem reach_forM_cons {step : α → Run (StateM σ) Unit} (a : α) (entries : List α) :
    reach ((a :: entries).forM step) printed state =
      reach (step a >>= fun _ => entries.forM step) printed state := rfl

/-- Steps that succeed have each succeeded. -/
theorem exists_reach_of_bind {b : β} (h : (reach (x >>= next) printed state).result = .ok b) :
    ∃ a printed' state', reach x printed state = ⟨.ok a, printed', state'⟩ ∧
      (reach (next a) printed' state').result = .ok b := by
  rw [reach_bind] at h
  rcases hfirst : reach x printed state with ⟨result, printed', state'⟩
  rw [hfirst] at h
  cases result with
  | error e => cases h
  | ok a => exact ⟨a, printed', state', rfl, h⟩

variable [Volume σ]

/-- A command line that can be used comes to what its command comes to. -/
theorem runOn_of_parse {line : List String} {command : Command} (h : parse? line = some command) :
    runOn state line =
      match reach command.run "" state with
      | ⟨.ok (), printed, later⟩ => (⟨0, printed, none⟩, later)
      | ⟨.error e, printed, later⟩ => (⟨1, printed, some e⟩, later) := by
  simp only [runOn, runLine, h, reach, StateT.run_bind, Id.run_bind]
  rcases Id.run (StateT.run (StateT.run (ExceptT.run command.run) "") state) with
    ⟨⟨result, printed⟩, later⟩
  cases result <;> rfl

/-- A command line that compiles. -/
theorem runOn_of_parse_compile {line : List String} {chain : ChainOptions} {policy : PolicyOptions}
    {output : OutputOptions} (h : parse? line = some (.compile chain policy output)) :
    runOn state line =
      match reach (runCompile chain policy output) "" state with
      | ⟨.ok (), printed, later⟩ => (⟨0, printed, none⟩, later)
      | ⟨.error e, printed, later⟩ => (⟨1, printed, some e⟩, later) :=
  runOn_of_parse h

/-- A command line that decodes. -/
theorem runOn_of_parse_decode {line : List String} {chain : ChainOptions} {image : String}
    (h : parse? line = some (.decode chain image)) :
    runOn state line =
      match reach (runDecode chain image) "" state with
      | ⟨.ok (), printed, later⟩ => (⟨0, printed, none⟩, later)
      | ⟨.error e, printed, later⟩ => (⟨1, printed, some e⟩, later) :=
  runOn_of_parse h

/-- It exits with 0 exactly if its command succeeds, and leaves the state that its command leaves. -/
theorem exitCode_runOn {line : List String} {command : Command} (h : parse? line = some command) :
    ((runOn state line).1.exitCode = 0 ↔ (reach command.run "" state).result = .ok ()) ∧
      (runOn state line).2 = (reach command.run "" state).state := by
  rw [runOn_of_parse h]
  rcases reach command.run "" state with ⟨⟨e⟩ | ⟨⟨⟩⟩, printed, later⟩
  · have hfailed : (1 : UInt32) ≠ 0 := by decide
    exact ⟨iff_of_false hfailed nofun, rfl⟩
  · exact ⟨iff_of_true rfl rfl, rfl⟩

/-! ## Reading -/

/-- A step that leaves text and tree alone. -/
def ReadsOnly (x : Run (StateM σ) α) : Prop :=
  ∀ printed state, (reach x printed state).printed = printed ∧
    Volume.tree (reach x printed state).state = Volume.tree state

theorem readsOnly_pure (a : α) : ReadsOnly (pure a : Run (StateM σ) α) := fun _ _ => ⟨rfl, rfl⟩

theorem readsOnly_orFail {ε : Type} (wrap : ε → CommandError) (result : Except ε α) :
    ReadsOnly (orFail wrap result : Run (StateM σ) α) := by
  intro printed state
  rw [reach_orFail]
  exact ⟨rfl, rfl⟩

/-- A file operation that leaves the tree alone. -/
theorem readsOnly_operation {operation : StateM σ α} (h : Volume.LeavesTree operation) :
    ReadsOnly (operation : Run (StateM σ) α) :=
  fun _ state => ⟨rfl, h state⟩

theorem ReadsOnly.bind (hfirst : ReadsOnly x) (hnext : ∀ a, ReadsOnly (next a)) :
    ReadsOnly (x >>= next) := by
  intro printed state
  obtain ⟨hprinted, htree⟩ := hfirst printed state
  rw [reach_bind]
  rcases hreach : reach x printed state with ⟨e | a, text, after⟩
  · rw [hreach] at hprinted htree
    exact ⟨hprinted, htree⟩
  · rw [hreach] at hprinted htree
    exact ⟨(hnext a text after).1.trans hprinted, (hnext a text after).2.trans htree⟩

/-- On a tree by itself nothing but the result is left to know. -/
theorem ReadsOnly.reach_eq {x : Run (StateM FileTree) α} (h : ReadsOnly x) (printed : String)
    (tree : FileTree) : reach x printed tree = ⟨(reach x printed tree).result, printed, tree⟩ := by
  obtain ⟨hprinted, htree⟩ := h printed tree
  rcases hreach : reach x printed tree with ⟨result, text, after⟩
  rw [hreach] at hprinted htree
  obtain rfl : text = printed := hprinted
  obtain rfl : after = tree := htree
  rfl

theorem readsOnly_readDescriptor (path : String) :
    ReadsOnly (readDescriptor path : Run (StateM σ) Descriptor) := by
  refine (readsOnly_operation (Volume.leavesTree_openFile path)).bind fun opened => ?_
  refine (readsOnly_orFail _ opened).bind fun handle => ?_
  refine (readsOnly_operation (Volume.leavesTree_contents handle)).bind fun result => ?_
  refine (readsOnly_orFail _ result).bind fun bytes => ?_
  exact readsOnly_orFail _ _

theorem readsOnly_readPolicy (path : String) :
    ReadsOnly (readPolicy path : Run (StateM σ) Policy) := by
  refine (readsOnly_operation (Volume.leavesTree_read path)).bind fun result => ?_
  refine (readsOnly_orFail _ _).bind fun bytes => ?_
  split
  · exact fun _ _ => ⟨rfl, rfl⟩
  · exact readsOnly_orFail _ _

theorem readsOnly_loadPolicy (options : PolicyOptions) :
    ReadsOnly (loadPolicy options : Run (StateM σ) Policy) := by
  have hcomplete (policy : Policy) : ReadsOnly
      ((orFail .policy policy.validate >>= fun _ => pure policy) : Run (StateM σ) Policy) :=
    (readsOnly_orFail _ _).bind fun _ => readsOnly_pure _
  unfold loadPolicy
  split
  · exact (readsOnly_readPolicy _).bind fun base => hcomplete _
  · exact (readsOnly_pure _).bind fun base => hcomplete _

end ScanChain.Command
