/-
# ScanChain.Proofs.DescriptorText — a descriptor survives its text

What a text is read as keeps to the bounds of a text: positions have 64 bits, and no width of a fault
model stands under the key of its name (`Descriptor.readable_of_ofJson`). Whatever keeps to them is read
back from the text that is written for it (`Descriptor.reads_toJson`): names of any characters, widths
given or left out, and tables in the order of their names, so that each name that is read is put behind
those before it.
-/
import ScanChain.Descriptor.Json
import ScanChain.Proofs.Readers

namespace ScanChain

open Json Json.Reader

/-! ## Tables -/

namespace NameTable

variable {α : Type}

theorem eq_of_entries_eq {table other : NameTable α} (h : table.entries = other.entries) :
    table = other := by
  cases table
  cases other
  cases h
  rfl

/-- A name behind all others is put at the end. -/
theorem insertInto_of_last {entries : List (String × α)} {name : String} (value : α)
    (h : ∀ entry ∈ entries, entry.1 < name) :
    insertInto name value entries = entries ++ [(name, value)] := by
  induction entries with
  | nil => rfl
  | cons entry entries ih =>
    have hlt : entry.1 < name := h entry (by simp)
    have hne : name ≠ entry.1 := by
      rintro rfl
      exact String.lt_irrefl _ hlt
    rw [insertInto, if_neg (String.lt_asymm hlt), if_neg hne,
      ih fun entry hentry => h entry (by simp [hentry]), List.cons_append]

end NameTable

/-- Members that are put into a table one after the other, in the order of their names, become the
entries behind those that are there. -/
theorem Json.Reader.follows_insert {ε α σ : Type} {member : String → σ → Reader ε σ}
    (state : NameTable α → σ) (write : α → Value) {entries : List (String × α)}
    (hmember : ∀ entry ∈ entries, ∀ table, Reads (member entry.1 (state table))
      (write entry.2).lexemes (state (table.insert entry.1 entry.2)))
    {before after : NameTable α} (hentries : after.entries = before.entries ++ entries) :
    Follows member (entries.map fun entry => (entry.1, write entry.2)) (state before)
      (state after) := by
  induction entries generalizing before with
  | nil =>
    rw [List.append_nil] at hentries
    rw [NameTable.eq_of_entries_eq hentries]
    exact .nil _
  | cons entry entries ih =>
    have hascending := after.ascending
    rw [hentries, List.pairwise_append] at hascending
    have hlast : (before.insert entry.1 entry.2).entries = before.entries ++ [entry] :=
      NameTable.insertInto_of_last entry.2 fun other hother =>
        hascending.2.2 other hother entry (by simp)
    refine .cons (hmember entry (by simp) before) (ih (fun e he => hmember e (by simp [he])) ?_)
    rw [hlast, hentries, List.append_assoc]
    rfl

/-! ## Fault models -/

namespace InjectorEntry

/-- No width has the key of the model's name. -/
def Readable (entry : InjectorEntry) : Prop := ∀ width ∈ entry.widths.entries, width.1 ≠ "kind"

theorem lexable_toJson (entry : InjectorEntry) : entry.toJson.Lexable := by
  rw [toJson, Value.Lexable, Value.lexableMembers_iff]
  intro m hm
  rcases List.mem_cons.mp hm with rfl | hm
  · trivial
  · obtain ⟨width, -, rfl⟩ := List.mem_map.mp hm
    trivial

theorem reads_toJson {entry : InjectorEntry} (h : entry.Readable) :
    Reads reader entry.toJson.lexemes entry := by
  have hkind : Reads (readMember "kind" (none, NameTable.empty)) (Value.text entry.kind).lexemes
      (some entry.kind, NameTable.empty) := (reads_text _).whole (.pure _)
  have hwidths : Follows readMember
      (entry.widths.entries.map fun width => (width.1, Value.count width.2.toNat))
      (some entry.kind, NameTable.empty) (some entry.kind, entry.widths) := by
    refine follows_insert (fun table => (some entry.kind, table))
      (fun width : UInt32 => Value.count width.toNat) ?_ rfl
    intro width hwidth table
    rw [readMember, if_neg (h width hwidth)]
    exact (reads_word _).whole (.pure _)
  exact (reads_object (.cons hkind hwidths)).whole (.pure entry)

theorem ensures_reader : Ensures reader Readable := by
  have hmember : ∀ key (read : Option String × NameTable UInt32),
      (∀ width ∈ read.2.entries, width.1 ≠ "kind") →
      Ensures (readMember key read) fun read => ∀ width ∈ read.2.entries, width.1 ≠ "kind" := by
    intro key read hread
    unfold readMember
    split
    · split
      · exact ensures_malformed
      · exact .of_next fun kind => .pure hread
    · next hkey =>
      refine .of_next fun width => .pure ?_
      intro entry hentry
      rcases NameTable.mem_insertInto hentry with rfl | hentry
      · exact hkey
      · exact hread entry hentry
  have hstart : ∀ width ∈ (NameTable.empty : NameTable UInt32).entries, width.1 ≠ "kind" := by
    intro width hwidth
    cases hwidth
  have hobject : Ensures (object readMember (none, .empty)) fun read =>
      ∀ width ∈ read.2.entries, width.1 ≠ "kind" := ensures_object hmember hstart
  refine hobject.bind fun read hread => ?_
  split
  · exact .pure hread
  · exact ensures_malformed

end InjectorEntry

/-! ## Segments -/

namespace SegmentEntry

/-- The position has 64 bits, and the fault model is readable. -/
def Readable (entry : SegmentEntry) : Prop := entry.position < 2 ^ 64 ∧ entry.injector.Readable

theorem lexable_toJson (entry : SegmentEntry) : entry.toJson.Lexable := by
  rw [toJson, Value.Lexable, Value.lexableMembers_iff]
  intro m hm
  simp only [List.mem_append, List.mem_cons, List.not_mem_nil, or_false, List.mem_map] at hm
  rcases hm with ((rfl | rfl) | ⟨width, -, rfl⟩) | rfl
  · trivial
  · trivial
  · trivial
  · exact entry.injector.lexable_toJson

theorem reads_toJson {entry : SegmentEntry} (h : entry.Readable) :
    Reads reader entry.toJson.lexemes entry := by
  obtain ⟨name, position, width, injector⟩ := entry
  have hposition : Reads (natural : EntryReader Nat) (Value.count position).lexemes position :=
    reads_natural h.1
  have hinjector : Reads InjectorEntry.reader injector.toJson.lexemes injector :=
    InjectorEntry.reads_toJson h.2
  apply reads_record
  · cases width with
    | none =>
      exact .cons ((reads_text _).whole (.pure _)) <| .cons (hposition.whole (.pure _)) <|
        .cons (hinjector.whole (.pure _)) (.nil _)
    | some width =>
      have hwidth : Reads (orNull word : EntryReader (Option UInt32))
          (Value.count width.toNat).lexemes (some width) := by
        have hword := reads_word (ε := Empty) width
        rw [Value.lexemes] at hword ⊢
        exact reads_orNull (by simp) hword
      exact .cons ((reads_text _).whole (.pure _)) <| .cons (hposition.whole (.pure _)) <|
        .cons (hwidth.whole (.pure _)) <| .cons (hinjector.whole (.pure _)) (.nil _)
  · cases width <;> simp [shape]
  · cases width <;> simp
  · cases width <;> simp [shape]

theorem ensures_reader : Ensures reader Readable := by
  apply ensures_record
  · intro name entry hentry
    unfold readPart
    split
    · exact .of_next fun _ => .pure hentry
    · refine (ensures_natUpTo _).bind fun position hposition => .pure ⟨?_, hentry.2⟩
      exact Nat.lt_of_le_pred (by decide) hposition
    · exact .of_next fun _ => .pure hentry
    · exact InjectorEntry.ensures_reader.bind fun injector hinjector => .pure ⟨hentry.1, hinjector⟩
    · exact ensures_malformed
  · refine ⟨by decide, ?_⟩
    intro width hwidth
    cases hwidth

end SegmentEntry

/-! ## Descriptors -/

namespace Descriptor

/-- Every entry of every chain is readable. -/
def Readable (descriptor : Descriptor) : Prop :=
  ∀ chain ∈ descriptor.chains.entries, ∀ entry ∈ chain.2, entry.Readable

theorem lexable_toJson (descriptor : Descriptor) : descriptor.toJson.Lexable := by
  rw [toJson, Value.Lexable, Value.lexableMembers_iff]
  intro m hm
  obtain ⟨chain, -, rfl⟩ := List.mem_map.mp hm
  rw [Value.Lexable, Value.lexableItems_iff]
  intro v hv
  obtain ⟨entry, -, rfl⟩ := List.mem_map.mp hv
  exact entry.lexable_toJson

theorem reads_toJson {descriptor : Descriptor} (h : descriptor.Readable) :
    Reads (object readChain .empty) descriptor.toJson.lexemes descriptor.chains := by
  apply reads_object
  refine follows_insert id (fun entries : List SegmentEntry =>
    Value.array (entries.map SegmentEntry.toJson)) ?_ rfl
  intro chain hchain table
  refine Reads.whole (reads_array ?_ ?_) (.pure _)
  · rw [List.forall₂_map_left_iff, List.forall₂_same]
    exact fun entry hentry => SegmentEntry.reads_toJson (h chain hchain entry hentry)
  · intro v hv
    obtain ⟨entry, -, rfl⟩ := List.mem_map.mp hv
    exact entry.lexable_toJson

/-- What a text is read as keeps to the bounds of a text. -/
theorem readable_of_ofJson {source : String} {descriptor : Descriptor}
    (h : ofJson source = .ok descriptor) : descriptor.Readable := by
  have hmember : ∀ name (chains : NameTable (List SegmentEntry)),
      (∀ chain ∈ chains.entries, ∀ entry ∈ chain.2, entry.Readable) →
      Ensures (readChain name chains) fun chains =>
        ∀ chain ∈ chains.entries, ∀ entry ∈ chain.2, entry.Readable := by
    intro name chains hchains
    refine (ensures_array SegmentEntry.ensures_reader).bind fun entries hentries => .pure ?_
    intro chain hchain
    rcases NameTable.mem_insertInto hchain with rfl | hchain
    · exact hentries
    · exact hchains chain hchain
  have hobject : Ensures (object readChain .empty) fun chains =>
      ∀ chain ∈ chains.entries, ∀ entry ∈ chain.2, entry.Readable :=
    ensures_object hmember fun chain hchain => by cases hchain
  cases hrun : run (object readChain .empty) source with
  | error e =>
    rw [ofJson, hrun] at h
    cases h
  | ok chains =>
    rw [ofJson, hrun] at h
    cases h
    exact hobject.of_run hrun

theorem ofJson_compact {descriptor : Descriptor} (h : descriptor.Readable) :
    ofJson descriptor.toJson.compact = .ok descriptor := by
  have hreads := reads_toJson h
  rw [← Value.tokens_compact descriptor.lexable_toJson] at hreads
  rw [ofJson, run_of_reads hreads]
  rfl

/-- The bounds of a text are all that a descriptor must keep to in order to be read from one. -/
theorem exists_ofJson_iff {descriptor : Descriptor} :
    (∃ source, ofJson source = .ok descriptor) ↔ descriptor.Readable := by
  constructor
  · rintro ⟨source, h⟩
    exact readable_of_ofJson h
  · intro h
    exact ⟨descriptor.toJson.compact, ofJson_compact h⟩

/-- The bytes of a file with the text are read back as well. -/
theorem ofBytes_compact {descriptor : Descriptor} (h : descriptor.Readable) :
    ofBytes (Text.utf8 descriptor.toJson.compact) = .ok descriptor := by
  rw [ofBytes, sourceOfBytes, Text.ofUtf8?_utf8]
  exact ofJson_compact h

/-- A descriptor that a text is read as is read back from the text that is written for it, and what is
read back is written as the same text. -/
theorem survives_text {source : String} {descriptor : Descriptor}
    (h : ofJson source = .ok descriptor) :
    ofJson descriptor.toJson.compact = .ok descriptor ∧
      (ofJson descriptor.toJson.compact).map (fun again => again.toJson.compact) =
        .ok descriptor.toJson.compact := by
  have hagain := ofJson_compact (readable_of_ofJson h)
  refine ⟨hagain, ?_⟩
  rw [hagain]
  rfl

/-- Members in another order, blanks, names with characters that are escaped, and no width. -/
def spacedSource : String :=
  "\x7b \"c\\u0000\\\"\" : [ \x7b \"injector\" : \x7b \"width\" : 3 , \"kind\" : \"stuck-at\" \x7d ,\n" ++
    "\"position\" : 9 , \"name\" : \"\\\\é\" \x7d ] \x7d"

theorem spacedSource_survives_text :
    ∃ descriptor, ofJson spacedSource = .ok descriptor ∧
      descriptor.toJson.compact =
        "\x7b\"c\\u0000\\\"\":[\x7b\"name\":\"\\\\é\",\"position\":9," ++
          "\"injector\":\x7b\"kind\":\"stuck-at\",\"width\":3\x7d\x7d]\x7d" ∧
      ofJson descriptor.toJson.compact = .ok descriptor := by
  have hread : (ofJson spacedSource).map (fun descriptor => descriptor.toJson.compact) =
      .ok ("\x7b\"c\\u0000\\\"\":[\x7b\"name\":\"\\\\é\",\"position\":9," ++
        "\"injector\":\x7b\"kind\":\"stuck-at\",\"width\":3\x7d\x7d]\x7d") := by
    decide +kernel
  cases h : ofJson spacedSource with
  | error e =>
    rw [h] at hread
    cases hread
  | ok descriptor =>
    rw [h] at hread
    exact ⟨descriptor, rfl, Except.ok.inj hread, (survives_text h).1⟩

end Descriptor
end ScanChain
