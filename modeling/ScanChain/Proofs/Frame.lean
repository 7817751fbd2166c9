/-
# ScanChain.Proofs.Frame — reading undoes packing, and refuses all other words

The words of an image are a frame around its payload: a header, and a checksum if there is one.
`ChainLayout.Refuses` lists the refusals of words in the order in which they are looked for, each
with the demands that hold before it, and `unpackWords_eq_error_iff` says that these are the
refusals of reading. `unpackWords_eq_ok_iff` is the other half: reading succeeds exactly on the
words of a packed image, and returns what was packed.
-/
import ScanChain.Proofs.Reading

namespace ScanChain

/-! ## Words -/

namespace ChainLayout

variable {layout : ChainLayout} {words : List UInt32} {checksum : Bool}

/-- The words of an image of the chain: the header, the checksum if there is one, and as many as the
bits of the segments take. -/
def wordCount (layout : ChainLayout) (checksum : Bool) : Nat :=
  1 + checksum.toNat + (layout.payloadBits + 31) / 32

/-- The words after the header and the checksum. -/
def payloadOf (words : List UInt32) (checksum : Bool) : List UInt32 :=
  words.drop (1 + checksum.toNat)

/-- The words have the count and the header of the chain, and the checksum of their payload. -/
structure Framed (layout : ChainLayout) (words : List UInt32) (checksum : Bool) : Prop where
  count : words.length = layout.wordCount checksum
  header : words[0]? = some layout.header
  signature : checksum = true → words[1]? = some (Misr.signature (payloadOf words checksum))

/-- The refusals of words in the order in which they are looked for: the count, the header, the
checksum, and last a set bit outside the fields. -/
inductive Refuses (layout : ChainLayout) (words : List UInt32) (checksum : Bool) : PackError → Prop
  | count : words.length ≠ layout.wordCount checksum →
      Refuses layout words checksum (.lengthMismatch (layout.wordCount checksum) words.length)
  | header {found : UInt32} : words.length = layout.wordCount checksum →
      words[0]? = some found → found ≠ layout.header →
      Refuses layout words checksum (.headerMismatch layout.header found)
  | signature {found : UInt32} : words.length = layout.wordCount checksum →
      words[0]? = some layout.header → checksum = true → words[1]? = some found →
      found ≠ Misr.signature (payloadOf words checksum) →
      Refuses layout words checksum
        (.checksumMismatch (Misr.signature (payloadOf words checksum)) found)
  | padding {e : PackError} : layout.Framed words checksum →
      PaddingRefused layout.segments (Word.streamBit (payloadOf words checksum)) e →
      Refuses layout words checksum e

/-- Reading words looks at the count, the header, the checksum and then at the payload. -/
theorem unpackWords_eq (layout : ChainLayout) (words : List UInt32) (checksum : Bool) :
    layout.unpackWords words checksum =
      if words.length ≠ layout.wordCount checksum then
        .error (.lengthMismatch (layout.wordCount checksum) words.length)
      else if words.headD 0 ≠ layout.header then
        .error (.headerMismatch layout.header (words.headD 0))
      else if checksum = true ∧
          (words.drop 1).headD 0 ≠ Misr.signature (payloadOf words checksum) then
        .error (.checksumMismatch (Misr.signature (payloadOf words checksum))
          ((words.drop 1).headD 0))
      else takeSegments layout.segments (Word.unpack (payloadOf words checksum)) := by
  have hfront : (if checksum then 2 else 1) = 1 + checksum.toNat := by cases checksum <;> rfl
  unfold unpackWords
  simp only [hfront]
  change (if words.length ≠ layout.wordCount checksum then _ else _) = _
  split
  · rfl
  · split
    · rfl
    · cases checksum with
      | false => simp [payloadOf]
      | true =>
        simp only [if_true, true_and, payloadOf]
        split
        · rfl
        · rfl

theorem first_word (hcount : words.length = layout.wordCount checksum) :
    words[0]? = some (words.headD 0) := by
  cases words with
  | nil =>
    rw [wordCount, List.length_nil] at hcount
    omega
  | cons word rest => rfl

theorem second_word (hcount : words.length = layout.wordCount checksum) (hc : checksum = true) :
    words[1]? = some ((words.drop 1).headD 0) := by
  match words with
  | [] | [_] =>
    rw [wordCount, hc, Bool.toNat_true] at hcount
    simp at hcount
    omega
  | first :: second :: rest => rfl

theorem refuses_of_unpackWords {e : PackError}
    (h : layout.unpackWords words checksum = .error e) : layout.Refuses words checksum e := by
  rw [unpackWords_eq] at h
  -- Each test is made only where the ones before it were passed.
  split at h
  · rename_i hcount
    cases h
    exact .count hcount
  · rename_i hcount
    have hcount := not_not.mp hcount
    have hfirst := first_word hcount
    split at h
    · rename_i hheader
      cases h
      exact .header hcount hfirst hheader
    · rename_i hheader
      rw [not_not.mp hheader] at hfirst
      split at h
      · rename_i hsig
        obtain ⟨hc, hne⟩ := hsig
        cases h
        exact .signature hcount hfirst hc (second_word hcount hc) hne
      · rename_i hsig
        refine .padding ⟨hcount, hfirst, ?_⟩ ?_
        · intro hc
          rw [second_word hcount hc, not_not.mp fun hne => hsig ⟨hc, hne⟩]
        · have hrefused := (takeSegments_eq_error_iff layout.tiled).mp h
          simpa only [← Word.streamBit_eq] using hrefused

theorem framed_of_unpackWords {resolved : List ResolvedSegment}
    (h : layout.unpackWords words checksum = .ok resolved) : layout.Framed words checksum := by
  rw [unpackWords_eq] at h
  split at h
  · cases h
  rename_i hcount
  have hcount := not_not.mp hcount
  split at h
  · cases h
  rename_i hheader
  split at h
  · cases h
  rename_i hsig
  refine ⟨hcount, ?_, ?_⟩
  · rw [first_word hcount, not_not.mp hheader]
  · intro hc
    rw [second_word hcount hc, not_not.mp fun hne => hsig ⟨hc, hne⟩]

theorem unpackWords_of_framed (h : layout.Framed words checksum) :
    layout.unpackWords words checksum =
      takeSegments layout.segments (Word.unpack (payloadOf words checksum)) := by
  have hheader : words.headD 0 = layout.header :=
    Option.some.inj ((first_word h.count).symm.trans h.header)
  have hsig : ¬ (checksum = true ∧
      (words.drop 1).headD 0 ≠ Misr.signature (payloadOf words checksum)) := by
    rintro ⟨hc, hne⟩
    exact hne (Option.some.inj ((second_word h.count hc).symm.trans (h.signature hc)))
  rw [unpackWords_eq, if_neg (not_not.mpr h.count), if_neg (not_not.mpr hheader), if_neg hsig]

theorem unpackWords_of_refuses {e : PackError} (h : layout.Refuses words checksum e) :
    layout.unpackWords words checksum = .error e := by
  cases h with
  | count hwrong => rw [unpackWords_eq, if_pos hwrong]
  | @header found hcount hfound hwrong =>
    obtain rfl : words.headD 0 = found := Option.some.inj ((first_word hcount).symm.trans hfound)
    rw [unpackWords_eq, if_neg (not_not.mpr hcount), if_pos hwrong]
  | @signature found hcount hheader hc hfound hwrong =>
    have hfirst : words.headD 0 = layout.header :=
      Option.some.inj ((first_word hcount).symm.trans hheader)
    obtain rfl : (words.drop 1).headD 0 = found :=
      Option.some.inj ((second_word hcount hc).symm.trans hfound)
    rw [unpackWords_eq, if_neg (not_not.mpr hcount), if_neg (not_not.mpr hfirst),
      if_pos ⟨hc, hwrong⟩]
  | padding hframed hrefused =>
    rw [unpackWords_of_framed hframed, takeSegments_eq_error_iff layout.tiled]
    simpa only [← Word.streamBit_eq] using hrefused

/-- Words are refused exactly as `Refuses` says. -/
theorem unpackWords_eq_error_iff {e : PackError} :
    layout.unpackWords words checksum = .error e ↔ layout.Refuses words checksum e :=
  ⟨refuses_of_unpackWords, unpackWords_of_refuses⟩

/-- The words of the image with a payload. -/
def frame (layout : ChainLayout) (payload : List UInt32) (checksum : Bool) : List UInt32 :=
  layout.header :: ((if checksum then some (Misr.signature payload) else none).toList ++ payload)

theorem words_imageOf (bits : List Bool) :
    (layout.imageOf bits checksum).words = layout.frame (Word.pack bits) checksum := rfl

theorem payloadOf_frame (payload : List UInt32) :
    payloadOf (layout.frame payload checksum) checksum = payload := by
  cases checksum <;> rfl

theorem framed_frame {payload : List UInt32}
    (hlen : payload.length = (layout.payloadBits + 31) / 32) :
    layout.Framed (layout.frame payload checksum) checksum where
  count := by
    rw [wordCount]
    cases checksum <;> simp [frame, hlen] <;> omega
  header := rfl
  signature hc := by
    rw [payloadOf_frame, hc]
    rfl

/-- Words with the right count, header and checksum are those of the image with their payload. -/
theorem Framed.eq_frame (h : layout.Framed words checksum) :
    words = layout.frame (payloadOf words checksum) checksum := by
  have hsecond := second_word h.count
  obtain ⟨hcount, hheader, hsig⟩ := h
  match words, checksum with
  | [], _ => cases hheader
  | first :: rest, false =>
    obtain rfl : first = layout.header := Option.some.inj hheader
    rfl
  | [_], true => cases hsecond rfl
  | first :: second :: rest, true =>
    obtain rfl : first = layout.header := Option.some.inj hheader
    have hsignature : second = Misr.signature rest := Option.some.inj (hsig rfl)
    rw [hsignature]
    rfl

theorem length_payloadOf (hcount : words.length = layout.wordCount checksum) :
    (payloadOf words checksum).length = (layout.payloadBits + 31) / 32 := by
  rw [payloadOf, List.length_drop, hcount, wordCount]
  omega

/-! ## Reading and packing -/

/-- What is read from a chain: an entry for each segment, with its name, its position and values
that have the names and widths of its fields. -/
def Reads (layout : ChainLayout) (resolved : List ResolvedSegment) : Prop :=
  List.Forall₂ PlacedSegment.Reads layout.segments resolved

theorem Reads.matches {resolved : List ResolvedSegment} (h : layout.Reads resolved) :
    layout.Matches resolved :=
  h.imp fun _ _ hr => hr.2.2

/-- Reading succeeds exactly on the words of a packed image, and returns what was packed into it. -/
theorem unpackWords_eq_ok_iff {resolved : List ResolvedSegment} :
    layout.unpackWords words checksum = .ok resolved ↔
      layout.Reads resolved ∧
        ∃ image, layout.pack resolved checksum = .ok image ∧ image.words = words := by
  refine ⟨?_, ?_⟩
  · intro h
    have hframed := framed_of_unpackWords h
    have hlen := length_payloadOf hframed.count
    rw [unpackWords_of_framed hframed] at h
    have hroom : totalWidth layout.segments ≤ (Word.unpack (payloadOf words checksum)).length := by
      rw [Word.length_unpack, layout.totalWidth_segments]
      omega
    obtain ⟨hreads, n, hstream⟩ := (takeSegments_eq_ok_iff layout.tiled hroom).mp h
    have hreads : layout.Reads resolved := hreads
    have hbits := length_chainStream layout.tiled hreads.matches
    rw [layout.totalWidth_segments] at hbits
    -- The zeros behind the stream are those that fill up its last word.
    have hpack : Word.pack (chainStream layout.segments resolved) = payloadOf words checksum := by
      have hzeros : 32 * Word.countFor (chainStream layout.segments resolved).length -
          (chainStream layout.segments resolved).length = n := by
        have hcount := congrArg List.length hstream
        rw [Word.length_unpack, List.length_append, List.length_replicate, hlen] at hcount
        rw [Word.countFor]
        omega
      rw [← Word.pack_unpack (payloadOf words checksum), hstream, ← hzeros, ← Word.unpack_pack,
        Word.pack_unpack]
    refine ⟨hreads, _, pack_eq_ok_iff.mpr ⟨hreads.matches, rfl⟩, ?_⟩
    rw [words_imageOf, hpack, ← hframed.eq_frame]
  · rintro ⟨hreads, image, hpack, rfl⟩
    obtain ⟨hmatch, rfl⟩ := pack_eq_ok_iff.mp hpack
    have hbits := length_chainStream layout.tiled hmatch
    have hlen : (Word.pack (chainStream layout.segments resolved)).length =
        (layout.payloadBits + 31) / 32 := by
      rw [Word.length_pack, hbits, layout.totalWidth_segments, Word.countFor]
    rw [words_imageOf, unpackWords_of_framed (framed_frame hlen), payloadOf_frame,
      Word.unpack_pack, takeSegments_eq_ok_iff layout.tiled (by
        rw [List.length_append, hbits]
        omega)]
    exact ⟨hreads, _, rfl⟩

end ChainLayout

end ScanChain
