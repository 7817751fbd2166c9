/-
# ScanChain.Proofs.Acceptance — the words that are read are the words that packing makes

The demands on words are joined here: reading stays in range, succeeds exactly on framed words
whose spare bits are clear, refuses all others with the first demand that they fail, and whatever
it returns is packed to the words it was read from.
-/
import ScanChain.Proofs.Cursor

namespace ScanChain.ChainLayout

variable {layout : ChainLayout} {words : List UInt32} {checksum : Bool}

/-- The spare bits of a payload are clear exactly if none of them is refused. -/
theorem spareClear_iff {payload : List UInt32} :
    layout.SpareClear payload ↔
      ∀ e, ¬ PaddingRefused layout.segments (Word.streamBit payload) e := by
  rw [SpareClear, not_isFieldPlace_clear_iff layout.tiled, ← not_exists,
    exists_paddingRefused_iff, not_not]

/-- Words are read exactly if they are framed and no spare bit is set. -/
theorem exists_unpackWords_iff :
    (∃ resolved, layout.unpackWords words checksum = .ok resolved) ↔
      layout.Framed words checksum ∧ layout.SpareClear (payloadOf words checksum) := by
  refine ⟨?_, ?_⟩
  · -- A set spare bit would have been refused.
    rintro ⟨resolved, hread⟩
    have hframed := framed_of_unpackWords hread
    refine ⟨hframed, spareClear_iff.mpr ?_⟩
    intro e hrefused
    have herror := unpackWords_eq_error_iff.mpr (.padding hframed hrefused)
    rw [hread] at herror
    cases herror
  · rintro ⟨hframed, hclear⟩
    -- Of the reasons to refuse words, a frame and clear spare bits leave none.
    rw [exists_eq_ok_iff]
    intro e herror
    cases unpackWords_eq_error_iff.mp herror with
    | count hwrong => exact hwrong hframed.count
    | header _ hfound hwrong =>
      exact hwrong (Option.some.inj (hfound.symm.trans hframed.header))
    | signature _ _ hc hfound hwrong =>
      exact hwrong (Option.some.inj (hfound.symm.trans (hframed.signature hc)))
    | padding _ hrefused => exact spareClear_iff.mp hclear e hrefused

/-- Reading words never leaves them, accepts exactly the framed words with clear spare bits, names
the first demand that other words fail, and is undone by packing. -/
theorem reads_exactly_packed_words (layout : ChainLayout) (words : List UInt32)
    (checksum : Bool) :
    layout.readWords? words checksum = some (layout.unpackWords words checksum) ∧
      ((∃ resolved, layout.unpackWords words checksum = .ok resolved) ↔
        layout.Framed words checksum ∧ layout.SpareClear (payloadOf words checksum)) ∧
      (∀ e, layout.unpackWords words checksum = .error e ↔ layout.Refuses words checksum e) ∧
      ∀ resolved, layout.unpackWords words checksum = .ok resolved →
        ∃ image, layout.pack resolved checksum = .ok image ∧ image.words = words := by
  refine ⟨readWords?_eq layout words checksum, exists_unpackWords_iff, ?_, ?_⟩
  · intro e
    exact unpackWords_eq_error_iff
  · intro resolved hread
    exact (unpackWords_eq_ok_iff.mp hread).2

end ScanChain.ChainLayout
