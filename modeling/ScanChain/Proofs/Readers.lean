/-
# ScanChain.Proofs.Readers — readers meet written values

A reader reads lexemes as a value when it takes just these from the front of any sequence that starts
with them (`Reads`). What reads the parts of a value reads the value: items in order make an array
(`reads_array`), members that lead from one state to the next make an object (`reads_object`) or, under
the names of a record, the record (`reads_record`).

The other direction says less and holds of every text: what a reader returns has the property that each
of its steps ensures (`Ensures`).
-/
import Mathlib.Data.List.Forall2
import ScanChain.Json.Reader
import ScanChain.NameTable
import ScanChain.Proofs.Lexing

namespace ScanChain.Json

namespace Value

/-- No value starts like the end of an array. -/
theorem exists_lexemes_eq_cons {v : Value} (h : v.Lexable) :
    ∃ first more, v.lexemes = first :: more ∧ first ≠ .closeArray := by
  cases v with
  | null => exact ⟨.null, [], by simp [lexemes], by simp⟩
  | boolean value => exact ⟨.boolean value, [], by simp [lexemes], by simp⟩
  | count n => exact ⟨.number _, [], by rw [lexemes], by simp⟩
  | real x =>
    obtain ⟨numeral, hnumeral⟩ := h
    exact ⟨.number numeral, [], by rw [lexemes, hnumeral], by simp⟩
  | text content => exact ⟨.text (some content), [], by simp [lexemes], by simp⟩
  | array items => exact ⟨.openArray, itemLexemes items, by rw [lexemes], by simp⟩
  | object members => exact ⟨.openObject, memberLexemes members, by rw [lexemes], by simp⟩

end Value

namespace Reader

variable {ε α β σ : Type}

/-- The reader takes these lexemes from the front, whatever follows them, and makes the value of them. -/
def Reads (reader : Reader ε α) (front : List Token) (value : α) : Prop :=
  ∀ rest, reader (front ++ rest) = .ok (value, rest)

section Reads

variable {reader : Reader ε α} {next : α → Reader ε β} {front more : List Token} {first : Token} {a : α}
  {b : β}

/-! ## Steps -/

theorem bind_of_ok {ts rest : List Token} (h : reader ts = .ok (a, rest)) :
    (reader >>= next) ts = next a rest := by
  show (reader ts >>= fun p => next p.1 p.2) = _
  rw [h]
  rfl

theorem Reads.pure (a : α) : Reads (Pure.pure a : Reader ε α) [] a := fun _ => rfl

theorem Reads.bind (hfirst : Reads reader front a) (hnext : Reads (next a) more b) :
    Reads (reader >>= next) (front ++ more) b := by
  intro rest
  rw [List.append_assoc, bind_of_ok (hfirst _)]
  exact hnext rest

/-- A step that takes one lexeme, and the steps from there. -/
theorem Reads.cons (hfirst : Reads reader [first] a) (hnext : Reads (next a) more b) :
    Reads (reader >>= next) (first :: more) b :=
  hfirst.bind hnext

/-- A step that takes all lexemes, and the steps after it that take none. -/
theorem Reads.whole (hfirst : Reads reader front a) (hnext : Reads (next a) [] b) :
    Reads (reader >>= next) front b := by
  have hboth := hfirst.bind hnext
  rwa [List.append_nil] at hboth

theorem Reads.map (f : α → β) (h : Reads reader front a) : Reads (f <$> reader) front (f a) := by
  intro rest
  show (reader (front ++ rest) >>= fun p => .ok (f p.1, p.2)) = _
  rw [h rest]
  rfl

theorem reads_next (first : Token) : Reads (Reader.next : Reader ε Token) [first] first := fun _ => rfl

theorem reads_expect (token : Token) : Reads (expect token : Reader ε Unit) [token] () := by
  intro rest
  simp [expect]

theorem reads_accept (token : Token) : Reads (accept token : Reader ε Bool) [token] true := by
  intro rest
  simp [accept]

/-- A lexeme other than the one that is looked for stays where it is. -/
theorem reads_of_ne {next : Bool → Reader ε β} {token : Token} (hne : first ≠ token)
    (hnext : Reads (next false) (first :: more) b) :
    Reads (accept token >>= next) (first :: more) b := by
  intro rest
  have hlook : (accept token : Reader ε Bool) (first :: more ++ rest) =
      .ok (false, first :: more ++ rest) := by
    simp [accept, hne]
  rw [bind_of_ok hlook]
  exact hnext rest

/-- Where any fuel from the number of lexemes on will do, the number of those that are left will. -/
theorem reads_of_fuel (next : Nat → Reader ε β)
    (h : ∀ fuel, front.length ≤ fuel → Reads (next fuel) front b) :
    Reads (get >>= fun left : List Token => next left.length) front b := by
  intro rest
  refine h (front ++ rest).length ?_ rest
  rw [List.length_append]
  exact Nat.le_add_right _ _

/-! ## Scalars -/

theorem reads_text (content : String) :
    Reads (text : Reader ε String) (Value.text content).lexemes content := by
  rw [Value.lexemes]
  exact (reads_next _).cons (.pure _)

theorem toNat?_toDigits {n limit : Nat} (h : n ≤ limit) :
    (⟨false, Nat.toDigits 10 n, none, none⟩ : Numeral).toNat? limit = some n := by
  have hvalue : Binary64.valueOfDigits (Nat.toDigits 10 n) = n := Nat.ofDigitChars_ten_toDigits
  simp [Numeral.toNat?, hvalue, h]

theorem reads_natUpTo {n limit : Nat} (h : n ≤ limit) :
    Reads (natUpTo limit : Reader ε Nat) (Value.count n).lexemes n := by
  rw [Value.lexemes]
  refine (reads_next _).cons ?_
  simp only [toNat?_toDigits h]
  exact .pure n

theorem reads_word (n : UInt32) :
    Reads (word : Reader ε UInt32) (Value.count n.toNat).lexemes n := by
  have hread := (reads_natUpTo (ε := ε) (Nat.le_sub_one_of_lt n.toNat_lt)).map UInt32.ofNat
  rwa [UInt32.ofNat_toNat] at hread

theorem reads_natural {n : Nat} (h : n < 2 ^ 64) :
    Reads (natural : Reader ε Nat) (Value.count n).lexemes n :=
  reads_natUpTo (Nat.le_sub_one_of_lt h)

/-- A value that does not start with `null` is not missing. -/
theorem reads_orNull (hne : first ≠ .null) (h : Reads reader (first :: more) a) :
    Reads (orNull reader) (first :: more) (some a) :=
  reads_of_ne hne (h.map some)

end Reads

/-! ## Arrays -/

section Arrays

variable {item : Reader ε α} {values : List Value} {items : List α}

theorem reads_moreItems (h : List.Forall₂ (fun v a => Reads item v.lexemes a) values items) :
    ∀ fuel, values.length < fuel → Reads (moreItems item fuel) (Value.furtherItems values) items := by
  induction h with
  | nil =>
    intro fuel hfuel
    obtain ⟨fuel, rfl⟩ : ∃ n, fuel = n + 1 := ⟨fuel - 1, by omega⟩
    rw [moreItems, Value.furtherItems]
    exact (reads_next _).cons (.pure _)
  | @cons v a values items hv _ ih =>
    intro fuel hfuel
    rw [List.length_cons] at hfuel
    obtain ⟨fuel, rfl⟩ : ∃ n, fuel = n + 1 := ⟨fuel - 1, by omega⟩
    rw [moreItems, Value.furtherItems]
    refine (reads_next _).cons (hv.bind ?_)
    exact (ih fuel (by omega)).whole (.pure _)

theorem length_lt_furtherItems (values : List Value) :
    values.length < (Value.furtherItems values).length := by
  induction values with
  | nil => simp [Value.furtherItems]
  | cons v values ih =>
    simp only [Value.furtherItems, List.length_cons, List.length_append]
    omega

/-- Items that are read one by one are read as an array. -/
theorem reads_array (h : List.Forall₂ (fun v a => Reads item v.lexemes a) values items)
    (hlex : ∀ v ∈ values, v.Lexable) : Reads (array item) (Value.array values).lexemes items := by
  rw [Value.lexemes]
  refine (reads_expect _).cons ?_
  cases h with
  | nil =>
    rw [Value.itemLexemes]
    exact (reads_accept _).cons (.pure _)
  | @cons v a values items hv hitems =>
    obtain ⟨first, more, hstart, hne⟩ := Value.exists_lexemes_eq_cons (hlex v (by simp))
    rw [Value.itemLexemes, hstart, List.cons_append]
    refine reads_of_ne hne ?_
    rw [← List.cons_append, ← hstart]
    refine hv.bind ?_
    refine reads_of_fuel (fun fuel => moreItems item fuel >>= fun tail => pure (a :: tail)) ?_
    intro fuel hfuel
    have hlength := length_lt_furtherItems values
    exact (reads_moreItems hitems fuel (by omega)).whole (.pure _)

end Arrays

/-! ## Objects -/

section Objects

/-- The values of the members are read one after the other, each from the state that the one before it
has left. -/
inductive Follows (member : String → σ → Reader ε σ) : List (String × Value) → σ → σ → Prop
  | nil (state : σ) : Follows member [] state state
  | cons {name : String} {value : Value} {members : List (String × Value)} {before between after : σ}
      (hvalue : Reads (member name before) value.lexemes between)
      (hmembers : Follows member members between after) :
      Follows member ((name, value) :: members) before after

variable {member : String → σ → Reader ε σ} {values : List (String × Value)} {start last : σ}

theorem reads_moreMembers (h : Follows member values start last) (hne : values ≠ []) :
    ∀ fuel, values.length ≤ fuel →
      Reads (moreMembers member fuel start) (Value.memberLexemes values) last := by
  induction h with
  | nil => exact absurd rfl hne
  | @cons name value values before between after hvalue hmembers ih =>
    intro fuel hfuel
    rw [List.length_cons] at hfuel
    obtain ⟨fuel, rfl⟩ : ∃ n, fuel = n + 1 := ⟨fuel - 1, by omega⟩
    have hname := reads_text (ε := ε) name
    rw [Value.lexemes] at hname
    rw [moreMembers, Value.memberLexemes]
    refine hname.cons ((reads_expect _).cons (hvalue.bind ?_))
    cases values with
    | nil =>
      cases hmembers
      rw [Value.furtherMembers]
      exact (reads_next _).cons (.pure _)
    | cons second values =>
      rw [Value.furtherMembers_cons]
      exact (reads_next _).cons (ih (by simp) fuel (by omega))

theorem length_lt_memberLexemes (values : List (String × Value)) :
    values.length < (Value.memberLexemes values).length := by
  have hfurther : ∀ members, members.length < (Value.furtherMembers members).length := by
    intro members
    induction members with
    | nil => simp [Value.furtherMembers]
    | cons m members ih =>
      simp only [Value.furtherMembers, List.length_cons, List.length_append]
      omega
  cases values with
  | nil => simp [Value.memberLexemes]
  | cons m values =>
    have := hfurther values
    simp only [Value.memberLexemes, List.length_cons, List.length_append]
    omega

theorem reads_members (h : Follows member values start last) :
    Reads (members member start) (Value.memberLexemes values) last := by
  cases values with
  | nil =>
    cases h
    rw [Value.memberLexemes]
    exact (reads_accept _).cons (.pure _)
  | cons m values =>
    obtain ⟨name, value⟩ := m
    rw [Value.memberLexemes]
    refine reads_of_ne (by simp) ?_
    rw [← Value.memberLexemes, if_neg (by decide)]
    refine reads_of_fuel (fun fuel => moreMembers member fuel start) ?_
    intro fuel hfuel
    have hlength := length_lt_memberLexemes ((name, value) :: values)
    exact reads_moreMembers h (by simp) fuel (by omega)

/-- Members that are read one after the other are read as an object. -/
theorem reads_object (h : Follows member values start last) :
    Reads (object member start) (Value.object values).lexemes last := by
  rw [Value.lexemes]
  exact (reads_expect _).cons (reads_members h)

end Objects

/-! ## Records -/

section Records

variable {shape : Shape} {field : String → σ → Reader ε σ} {values : List (String × Value)}
  {start last : σ}

/-- Members with distinct names of the record are read by the record's reader. -/
theorem follows_keyedMember (h : Follows field values start last) :
    ∀ seen : List String, (∀ m ∈ values, m.1 ∈ shape.members ∧ m.1 ∉ seen) →
      (values.map (·.1)).Nodup →
      Follows (keyedMember shape field) values (seen, start)
        ((values.map (·.1)).reverse ++ seen, last) := by
  induction h with
  | nil state =>
    intro seen _ _
    exact .nil _
  | @cons name value values before between after hvalue _ ih =>
    intro seen hknown hdistinct
    rw [List.map_cons, List.nodup_cons] at hdistinct
    obtain ⟨hname, hunseen⟩ := hknown (name, value) (by simp)
    have hread : Reads (keyedMember shape field name (seen, before)) value.lexemes
        (name :: seen, between) := by
      have hkeyed : keyedMember shape field name (seen, before) =
          (field name before >>= fun state => pure (name :: seen, state)) := by
        simp [keyedMember, hname, hunseen]
      rw [hkeyed]
      exact hvalue.whole (.pure _)
    have hrest := ih (name :: seen) (fun m hm => ?_) hdistinct.2
    · rw [List.map_cons, List.reverse_cons, List.append_assoc]
      exact .cons hread hrest
    · refine ⟨(hknown m (by simp [hm])).1, ?_⟩
      rw [List.mem_cons, not_or]
      refine ⟨?_, (hknown m (by simp [hm])).2⟩
      rintro rfl
      exact hdistinct.1 (List.mem_map.mpr ⟨m, hm, rfl⟩)

/-- A record is read from an object whose members have distinct names of the record and leave out only
what may be left out. -/
theorem reads_record (h : Follows field values start last)
    (hknown : ∀ m ∈ values, m.1 ∈ shape.members) (hdistinct : (values.map (·.1)).Nodup)
    (hmissing : ∀ name ∈ shape.members, name ∉ values.map (·.1) → shape.mayOmit .named name = true) :
    Reads (record shape field start) (Value.object values).lexemes last := by
  have hfollows := follows_keyedMember h [] (fun m hm => ⟨hknown m hm, by simp⟩) hdistinct
  rw [Value.lexemes]
  refine (reads_next _).cons ?_
  refine (reads_members hfollows).whole ?_
  have hcomplete : (shape.members.filter fun name =>
      !((values.map fun m : String × Value => m.1).reverse ++ []).contains name).all (shape.mayOmit .named) = true := by
    rw [List.all_eq_true]
    intro name hname
    rw [List.mem_filter] at hname
    refine hmissing name hname.1 ?_
    simpa using hname.2
  simp only [hcomplete, if_true]
  exact .pure last

end Records

/-! ## What a reader returns -/

/-- Whatever the text, what the reader returns has the property. -/
def Ensures (reader : Reader ε α) (P : α → Prop) : Prop :=
  ∀ ts a rest, reader ts = .ok (a, rest) → P a

section Ensures

variable {P : α → Prop} {Q : β → Prop} {reader : Reader ε α} {next : α → Reader ε β}

theorem Ensures.pure {a : α} (h : P a) : Ensures (Pure.pure a : Reader ε α) P := by
  intro ts b rest hread
  cases hread
  exact h

theorem ensures_malformed : Ensures (malformed : Reader ε α) P := by
  intro ts a rest hread
  cases hread

theorem Ensures.bind (hfirst : Ensures reader P) (hnext : ∀ a, P a → Ensures (next a) Q) :
    Ensures (reader >>= next) Q := by
  intro ts b rest hread
  change (reader ts >>= fun p => next p.1 p.2) = _ at hread
  cases hfirst' : reader ts with
  | error e =>
    rw [hfirst'] at hread
    cases hread
  | ok p =>
    obtain ⟨a, left⟩ := p
    rw [hfirst'] at hread
    exact hnext a (hfirst ts a left hfirst') left b rest hread

/-- Where the steps that follow do not depend on it, it does not matter what a step returns. -/
theorem Ensures.of_next (hnext : ∀ a, Ensures (next a) Q) : Ensures (reader >>= next) Q := by
  have hany : Ensures reader fun _ => True := fun _ _ _ _ => trivial
  exact hany.bind fun a _ => hnext a

theorem ensures_natUpTo (limit : Nat) : Ensures (natUpTo limit : Reader ε Nat) (· ≤ limit) := by
  refine .of_next fun token => ?_
  split
  · next numeral =>
    split
    · next n hn =>
      refine .pure ?_
      simp only [Numeral.toNat?] at hn
      split at hn
      · cases hn
      · cases hn
        omega
    · exact ensures_malformed
  · exact ensures_malformed

/-! ### Arrays -/

theorem ensures_moreItems {item : Reader ε α} (hitem : Ensures item P) (fuel : Nat) :
    Ensures (moreItems item fuel) (∀ a ∈ ·, P a) := by
  induction fuel with
  | zero => exact ensures_malformed
  | succ fuel ih =>
    rw [moreItems]
    refine .of_next fun token => ?_
    split
    · exact .pure (by simp)
    · refine hitem.bind fun a ha => ih.bind fun items hitems => .pure ?_
      exact List.forall_mem_cons.mpr ⟨ha, hitems⟩
    · exact ensures_malformed

/-- What is true of every item that is read is true of the items of an array. -/
theorem ensures_array {item : Reader ε α} (hitem : Ensures item P) :
    Ensures (array item) (∀ a ∈ ·, P a) := by
  refine .of_next fun _ => .of_next fun closed => ?_
  split
  · exact .pure (by simp)
  · refine hitem.bind fun a ha => .of_next fun left => ?_
    refine (ensures_moreItems hitem _).bind fun items hitems => .pure ?_
    exact List.forall_mem_cons.mpr ⟨ha, hitems⟩

/-! ### Objects and records -/

section Members

variable {I : σ → Prop} {start : σ}

theorem ensures_moreMembers {member : String → σ → Reader ε σ}
    (hmember : ∀ key state, I state → Ensures (member key state) I) (fuel : Nat) :
    ∀ start, I start → Ensures (moreMembers member fuel start) I := by
  induction fuel with
  | zero => exact fun _ _ => ensures_malformed
  | succ fuel ih =>
    intro start hstart
    rw [moreMembers]
    refine .of_next fun key => .of_next fun _ => ?_
    refine (hmember key start hstart).bind fun state hstate => .of_next fun token => ?_
    split
    · exact .pure hstate
    · exact ih state hstate
    · exact ensures_malformed

theorem ensures_members {member : String → σ → Reader ε σ}
    (hmember : ∀ key state, I state → Ensures (member key state) I) (hstart : I start) :
    Ensures (members member start) I := by
  refine .of_next fun closed => ?_
  split
  · exact .pure hstart
  · exact .of_next fun left => ensures_moreMembers hmember _ start hstart

/-- What every member keeps true is true of what an object is read as. -/
theorem ensures_object {member : String → σ → Reader ε σ}
    (hmember : ∀ key state, I state → Ensures (member key state) I) (hstart : I start) :
    Ensures (object member start) I :=
  .of_next fun _ => ensures_members hmember hstart

theorem ensures_orderedMembers {field : String → σ → Reader ε σ}
    (hfield : ∀ name state, I state → Ensures (field name state) I) :
    ∀ names first start, I start →
      Ensures (orderedMembers field first names start) (fun read => I read.2) := by
  intro names
  induction names with
  | nil =>
    intro first start hstart
    exact .of_next fun _ => .pure hstart
  | cons name names ih =>
    intro first start hstart
    rw [orderedMembers]
    refine .of_next fun closed => ?_
    have hnext : Ensures (do
        let state ← field name start
        orderedMembers field false names state) (fun read => I read.2) :=
      (hfield name start hstart).bind fun state hstate => ih false state hstate
    split
    · exact .pure hstart
    · split
      · exact .of_next fun _ => hnext
      · exact hnext

theorem ensures_keyedMember {shape : Shape} {field : String → σ → Reader ε σ}
    (hfield : ∀ name state, I state → Ensures (field name state) I) (key : String)
    (read : List String × σ) (hread : I read.2) :
    Ensures (keyedMember shape field key read) (fun read => I read.2) := by
  unfold keyedMember
  split
  · exact .of_next fun _ => .pure hread
  · split
    · exact ensures_malformed
    · exact (hfield key _ hread).bind fun state hstate => .pure hstate

/-- What every field keeps true is true of what a record is read as, in either form. -/
theorem ensures_record {shape : Shape} {field : String → σ → Reader ε σ}
    (hfield : ∀ name state, I state → Ensures (field name state) I) (hstart : I start) :
    Ensures (record shape field start) I := by
  refine .of_next fun token => ?_
  split
  · refine (ensures_orderedMembers hfield _ true start hstart).bind fun read hread => ?_
    obtain ⟨missing, state⟩ := read
    dsimp only
    split
    · exact .pure hread
    · exact ensures_malformed
  · refine Ensures.bind (ensures_members (ensures_keyedMember hfield) hstart) fun read hread => ?_
    obtain ⟨seen, state⟩ := read
    dsimp only
    split
    · exact .pure hread
    · exact ensures_malformed
  · exact ensures_malformed

end Members
end Ensures

/-! ## Whole texts -/

theorem run_of_reads {reader : Reader ε α} {source : String} {a : α}
    (h : Reads reader (tokens source.toList) a) : run reader source = .ok a := by
  have hread := h []
  rw [List.append_nil] at hread
  rw [run, hread]
  rfl

/-- A text that is read is taken to its end. -/
theorem read_of_run {reader : Reader ε α} {source : String} {a : α}
    (h : run reader source = .ok a) : reader (tokens source.toList) = .ok (a, []) := by
  rw [run] at h
  cases hread : reader (tokens source.toList) with
  | error e =>
    rw [hread] at h
    cases h
  | ok p =>
    obtain ⟨b, rest⟩ := p
    rw [hread] at h
    change (if rest.isEmpty then _ else _) = _ at h
    split at h
    · next hempty =>
      rw [List.isEmpty_iff] at hempty
      cases h
      rw [hempty]
    · cases h

theorem Ensures.of_run {reader : Reader ε α} {P : α → Prop} {source : String} {a : α}
    (h : Ensures reader P) (hrun : run reader source = .ok a) : P a :=
  h _ _ _ (read_of_run hrun)

/-! ## Binary64 numbers -/

/-- A binary64 number that is written and read alone comes back. -/
def ReadsBack (x : Binary64) : Prop :=
  run (binary64 : Reader Empty Binary64) (Value.realForm x) = .ok x

theorem binary64_of_ok {ts rest : List Token} {x : Binary64}
    (h : (binary64 : Reader Empty Binary64) ts = .ok (x, rest)) :
    ∃ numeral, ts = .number numeral :: rest ∧ numeral.toBinary64? = some x := by
  cases ts with
  | nil => cases h
  | cons first left =>
    cases first with
    | number numeral =>
      have hnext : (next : Reader Empty Token) (.number numeral :: left) = .ok (.number numeral, left) :=
        rfl
      rw [binary64, bind_of_ok hnext] at h
      cases hvalue : numeral.toBinary64? with
      | none =>
        simp only [hvalue] at h
        cases h
      | some y =>
        simp only [hvalue] at h
        cases h
        exact ⟨numeral, rfl, hvalue⟩
    | _ => cases h

theorem ReadsBack.exists_numeral {x : Binary64} (h : ReadsBack x) :
    ∃ numeral, tokens (Value.realForm x).toList = [.number numeral] ∧
      numeral.toBinary64? = some x :=
  binary64_of_ok (read_of_run h)

theorem ReadsBack.lexable {x : Binary64} (h : ReadsBack x) : (Value.real x).Lexable := by
  obtain ⟨numeral, hnumeral, -⟩ := h.exists_numeral
  exact ⟨numeral, hnumeral⟩

/-- A number that is read back alone is read back wherever it stands. -/
theorem reads_binary64 {x : Binary64} (h : ReadsBack x) :
    Reads (binary64 : Reader ε Binary64) (Value.real x).lexemes x := by
  obtain ⟨numeral, hnumeral, hvalue⟩ := h.exists_numeral
  rw [Value.lexemes, hnumeral]
  refine (reads_next _).cons ?_
  simp only [hvalue]
  exact .pure x

end Reader
end ScanChain.Json
