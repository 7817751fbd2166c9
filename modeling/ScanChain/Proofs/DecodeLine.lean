/-
# ScanChain.Proofs.DecodeLine — a command line for every decoding

Whatever the names are, there is a command line that asks for the values of an image: options with
their values behind `=`, which may start with a dash there, and the descriptor behind `--`
(`parse?_decodeLine`).
-/
import ScanChain.Command.Parse

namespace ScanChain.Command

/-! ## Sorting options out -/

section Sorting

variable {switches : List Switch} {switch : Switch} {value argument : String} {rest : List String}
  {given given' : Given}

theorem splitAtEquals_of_value {name : List Char} (h : '=' ∉ name) (value : List Char) :
    splitAtEquals (name ++ '=' :: value) = (name, some value) := by
  have hkeep : ∀ c ∈ name, decide (c ≠ '=') = true := by
    intro c hc
    rw [decide_eq_true_eq]
    rintro rfl
    exact h hc
  have hdrop : (name ++ '=' :: value).dropWhile (· ≠ '=') = '=' :: value := by
    rw [List.dropWhile_append_of_pos hkeep]
    rfl
  have htake : (name ++ '=' :: value).takeWhile (· ≠ '=') = name := by
    rw [List.takeWhile_append_of_pos hkeep]
    simp
  unfold splitAtEquals
  simp only [hdrop, htake]

/-- An argument with two dashes is a switch by its long name, unless it is nothing else. -/
theorem sortOut_long {text : List Char} (hargument : argument.toList = '-' :: '-' :: text)
    (hne : text ≠ []) (hlong : takeLong switches text given = some (given', none)) :
    sortOut switches none (argument :: rest) given = sortOut switches none rest given' := by
  rw [sortOut, hargument]
  cases text with
  | nil => exact absurd rfl hne
  | cons c text => simp only [hlong, Option.isSome_none, Bool.false_eq_true, if_false]

/-- An option with its value behind `=`. -/
theorem sortOut_value (mark name : String)
    (hmark : mark.toList = '-' :: '-' :: (name.toList ++ ['=']))
    (hname : '=' ∉ name.toList) (hswitch : switches.find? (·.long = name) = some switch)
    (htakes : switch.takesValue = true) (hadd : given.addValue switch.long value = some given') :
    sortOut switches none ((mark ++ value) :: rest) given = sortOut switches none rest given' := by
  have hargument : (mark ++ value).toList =
      '-' :: '-' :: (name.toList ++ '=' :: value.toList) := by
    rw [String.toList_append, hmark, List.cons_append, List.cons_append, List.append_assoc]
    rfl
  refine sortOut_long hargument (by simp) ?_
  simp only [takeLong, splitAtEquals_of_value hname, String.ofList_toList, hswitch, htakes, hadd,
    Option.map_some]

/-- Behind two dashes alone every argument is plain. -/
theorem sortOut_plain :
    sortOut switches none ("--" :: rest) given = some (rest.foldl Given.addPlain given) := by
  rw [sortOut]
  rfl

end Sorting

theorem path?_of_ne {path : String} (h : path ≠ "") : path? path = some path := by
  simp [path?, h]

/-! ## Decoding -/

/-- The switches of a decoding. -/
def decodeSwitches : List Switch := chainSwitches ++ [.option "image" (some 'i')]

/-- A command line that asks for the values of an image of a chain. -/
def decodeLine (options : ChainOptions) (name image : String) : List String :=
  ["decode", "--chain=" ++ name, "--image=" ++ image, "--header=" ++ options.header.name] ++
    (if options.checksum then ["--checksum"] else []) ++ ["--", options.descriptor]

/-- What is sorted out of the line. -/
def decodeGiven (options : ChainOptions) (name image : String) : Given :=
  ⟨[("header", options.header.name), ("image", image), ("chain", name)],
    if options.checksum then ["checksum"] else [], [options.descriptor]⟩

theorem sortOut_decodeLine (options : ChainOptions) (name image : String) :
    sortOut decodeSwitches none (decodeLine options name image).tail .none =
      some (decodeGiven options name image) := by
  show sortOut decodeSwitches none (("--chain=" ++ name) :: ("--image=" ++ image) ::
    ("--header=" ++ options.header.name) :: _) _ = _
  rw [sortOut_value "--chain=" "chain" rfl (by decide) rfl rfl rfl,
    sortOut_value "--image=" "image" rfl (by decide) rfl rfl rfl,
    sortOut_value "--header=" "header" rfl (by decide) rfl rfl rfl, decodeGiven]
  cases options.checksum with
  | false => exact sortOut_plain
  | true =>
    have hflag : "--checksum".toList = '-' :: '-' :: "checksum".toList := rfl
    have hlong : takeLong decodeSwitches "checksum".toList
        ⟨[("header", options.header.name), ("image", image), ("chain", name)], [], []⟩ = some
          (⟨[("header", options.header.name), ("image", image), ("chain", name)], ["checksum"], []⟩,
            none) := rfl
    exact (sortOut_long hflag (by decide) hlong).trans sortOut_plain

/-- The line asks for the values of the image. -/
theorem parse?_decodeLine {options : ChainOptions} {name image : String}
    (hdescriptor : options.descriptor ≠ "") (himage : image ≠ "") :
    parse? (decodeLine options name image) =
      some (.decode { options with chain := some name } image) := by
  have hline : parse? (decodeLine options name image) =
      ofArguments? "decode" (decodeLine options name image).tail := rfl
  have hheader : HeaderKind.ofName? options.header.name = some options.header := by
    cases options.header <;> rfl
  have hchain : chainOptions? (decodeGiven options name image) =
      some { options with chain := some name } := by
    cases hsum : options.checksum <;>
      simp [chainOptions?, decodeGiven, Given.value?, Given.has, hheader, path?_of_ne hdescriptor, hsum]
  have hvalue : (decodeGiven options name image).value? "image" path? = some (some image) := by
    simp [decodeGiven, Given.value?, path?_of_ne himage]
  rw [hline]
  show (sortOut decodeSwitches none (decodeLine options name image).tail .none >>= fun given => _) = _
  rw [sortOut_decodeLine]
  show (chainOptions? (decodeGiven options name image) >>= fun chain => _) = _
  rw [hchain]
  show ((decodeGiven options name image).value? "image" path? >>= fun image => _) = _
  rw [hvalue]
  rfl

end ScanChain.Command
