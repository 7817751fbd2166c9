/-
# ScanChain.Json.Reader — typed readers over a token sequence

A reader takes a value from the front of a token sequence and leaves the rest. Readers work from left
to right and stop at the first fault, so which of two faults is reported is fixed by the text alone.
A fault is either malformed JSON (or JSON of another shape), or the refusal of a string's content by
the type it is read as, which keeps its cause.

A record is read from an object, with its members in any order, members of other names passed over
and no known member twice; or from an array, with the members in the record's order.

The modules `ScanChain.Json.Source`, `Token`, `Numeral` and this one stand for the readers of the package
`serde_json`, which is no part of this library. Theorems about texts that are read, and so all that start
from the bytes of a descriptor or policy file, take for granted that the package accepts the same texts
and reads the same values from them; the words of its messages are left out.
-/
import ScanChain.Json.Token

namespace ScanChain.Json

/-- Why a text could not be read. -/
inductive Fault (ε : Type) where
  /-- The text is not JSON, or not of the expected shape. -/
  | malformed
  /-- A string was refused by the type it is read as. -/
  | content (cause : ε)
deriving DecidableEq

/-- Takes a value from the front of a token sequence. -/
abbrev Reader (ε α : Type) := StateT (List Token) (Except (Fault ε)) α

namespace Reader

variable {ε α σ : Type}

/-- The next lexeme. -/
def next : Reader ε Token := fun ts =>
  match ts with
  | [] => .error .malformed
  | t :: rest => .ok (t, rest)

/-- Takes the given lexeme if it is next. -/
def accept (token : Token) : Reader ε Bool := fun ts =>
  match ts with
  | t :: rest => if t = token then .ok (true, rest) else .ok (false, t :: rest)
  | [] => .ok (false, [])

/-- Takes the given lexeme, which has to be next. -/
def expect (token : Token) : Reader ε Unit := fun ts =>
  match ts with
  | t :: rest => if t = token then .ok ((), rest) else .error .malformed
  | [] => .error .malformed

/-- Refuses what is next. -/
def malformed : Reader ε α := fun _ => .error .malformed

/-! ## Scalars -/

/-- A string. -/
def text : Reader ε String := do
  match ← next with
  | .text (some content) => pure content
  | _ => malformed

/-- A truth value. -/
def boolean : Reader ε Bool := do
  match ← next with
  | .boolean value => pure value
  | _ => malformed

/-- A whole number from 0 to `limit`. -/
def natUpTo (limit : Nat) : Reader ε Nat := do
  match ← next with
  | .number numeral =>
    match numeral.toNat? limit with
    | some n => pure n
    | none => malformed
  | _ => malformed

/-- A number in 32 bits. -/
def word : Reader ε UInt32 := UInt32.ofNat <$> natUpTo (2 ^ 32 - 1)

/-- A number in 64 bits. -/
def natural : Reader ε Nat := natUpTo (2 ^ 64 - 1)

/-- A binary64 number. -/
def binary64 : Reader ε Binary64 := do
  match ← next with
  | .number numeral =>
    match numeral.toBinary64? with
    | some x => pure x
    | none => malformed
  | _ => malformed

/-- One of several named cases: its name, or an object with the name as only key and `null` under it. -/
def caseOf (named : String → Option α) : Reader ε α := do
  let pick (name : String) : Reader ε α := match named name with
    | some value => pure value
    | none => malformed
  match ← next with
  | .text (some name) => pick name
  | .openObject =>
    let value ← text >>= pick
    expect .colon
    expect .null
    expect .closeObject
    pure value
  | _ => malformed

/-- A value or `null`. -/
def orNull (value : Reader ε α) : Reader ε (Option α) := do
  if ← accept .null then pure none else some <$> value

/-! ## Values passed over -/

/-- What may come next in a value that is passed over. -/
inductive Place where
  /-- A value. -/
  | value
  /-- A value, or the end of an array without items. -/
  | firstItem
  /-- A key, or the end of an object without members. -/
  | firstKey
  /-- A key. -/
  | key
  /-- What follows a value: a comma or the end of what holds it. -/
  | after

/-- The open brackets, `true` for an object, and the place after the first lexeme of a value. -/
def enter (depth : List Bool) : Token → Option (List Bool × Place)
  | .openArray => some (false :: depth, .firstItem)
  | .openObject => some (true :: depth, .firstKey)
  | .null | .boolean _ | .number _ | .text _ => some (depth, .after)
  | _ => none

/-- Passes over the rest of a value. With no bracket open and a value just read, it is complete. -/
def pass : List Bool → Place → List Token → Option (List Token)
  | [], .after, rest => some rest
  | _, _, [] => none
  | true :: depth, .after, .comma :: rest => pass (true :: depth) .key rest
  | true :: depth, .after, .closeObject :: rest => pass depth .after rest
  | false :: depth, .after, .comma :: rest => pass (false :: depth) .value rest
  | false :: depth, .after, .closeArray :: rest => pass depth .after rest
  | _, .after, _ => none
  | _ :: depth, .firstKey, .closeObject :: rest => pass depth .after rest
  | depth, .firstKey, .text _ :: .colon :: rest => pass depth .value rest
  | _, .firstKey, _ => none
  | depth, .key, .text _ :: .colon :: rest => pass depth .value rest
  | _, .key, _ => none
  | _ :: depth, .firstItem, .closeArray :: rest => pass depth .after rest
  | depth, .firstItem, t :: rest =>
    match enter depth t with
    | some (inner, place) => pass inner place rest
    | none => none
  | depth, .value, t :: rest =>
    match enter depth t with
    | some (inner, place) => pass inner place rest
    | none => none

/-- Passes over a value of any kind. -/
def anyValue : Reader ε Unit := fun ts =>
  match pass [] .value ts with
  | some rest => .ok ((), rest)
  | none => .error .malformed

/-! ## Arrays -/

/-- The items of an array after the first, up to its end; each takes at least one lexeme of `fuel`. -/
def moreItems (item : Reader ε α) : Nat → Reader ε (List α)
  | 0 => malformed
  | fuel + 1 => do
    match ← next with
    | .closeArray => pure []
    | .comma =>
      let head ← item
      let tail ← moreItems item fuel
      pure (head :: tail)
    | _ => malformed

/-- An array. -/
def array (item : Reader ε α) : Reader ε (List α) := do
  expect .openArray
  if ← accept .closeArray then pure []
  else
    let head ← item
    let tail ← moreItems item (← get).length
    pure (head :: tail)

/-! ## Objects -/

/-- The members of an object from a key on, up to its end; each takes at least one lexeme of `fuel`. -/
def moreMembers (member : String → σ → Reader ε σ) : Nat → σ → Reader ε σ
  | 0, _ => malformed
  | fuel + 1, state => do
    let key ← text
    expect .colon
    let state ← member key state
    match ← next with
    | .closeObject => pure state
    | .comma => moreMembers member fuel state
    | _ => malformed

/-- The members of an object whose opening brace is taken, each given to `member` with its key. -/
def members (member : String → σ → Reader ε σ) (start : σ) : Reader ε σ := do
  if ← accept .closeObject then pure start
  else moreMembers member (← get).length start

/-- An object. -/
def object (member : String → σ → Reader ε σ) (start : σ) : Reader ε σ := do
  expect .openObject
  members member start

/-! ## Records -/

/-- How a record stands in a text. -/
inductive Form where
  /-- An object with named members. -/
  | named
  /-- An array in the order of the record. -/
  | ordered
deriving DecidableEq

/-- What the reader of a record has to know: its members in order, and which may be left out. In an
array only members at the end can be left out. -/
structure Shape where
  members : List String
  mayOmit : Form → String → Bool

/-- The items of an array up to its end, as the members of a record with the names given; the first
item has no comma before it. The names that are left over are returned too. -/
def orderedMembers (field : String → σ → Reader ε σ) :
    Bool → List String → σ → Reader ε (List String × σ)
  | _, [], state => do
    expect .closeArray
    pure ([], state)
  | first, name :: names, state => do
    if ← accept .closeArray then pure (name :: names, state)
    else
      if !first then expect .comma
      let state ← field name state
      orderedMembers field false names state

/-- Reads the member of a key into a record that stands as an object: what has been read so far comes
with the names that it was read for. -/
def keyedMember (shape : Shape) (field : String → σ → Reader ε σ) (key : String)
    (read : List String × σ) : Reader ε (List String × σ) := do
  if !shape.members.contains key then
    anyValue
    pure read
  else if read.1.contains key then malformed
  else
    let state ← field key read.2
    pure (key :: read.1, state)

/-- A record: `field` reads the member of a name into what has been read so far. -/
def record (shape : Shape) (field : String → σ → Reader ε σ) (start : σ) : Reader ε σ := do
  match ← next with
  | .openArray =>
    let (missing, state) ← orderedMembers field true shape.members start
    if missing.all (shape.mayOmit .ordered) then pure state else malformed
  | .openObject =>
    let (seen, state) ← members (keyedMember shape field) ([], start)
    let missing := shape.members.filter fun name => !seen.contains name
    if missing.all (shape.mayOmit .named) then pure state else malformed
  | _ => malformed

/-- The value of a whole text. -/
def run (reader : Reader ε α) (source : String) : Except (Fault ε) α := do
  let (value, rest) ← reader (tokens source.toList)
  if rest.isEmpty then pure value else .error .malformed

end Reader
end ScanChain.Json
