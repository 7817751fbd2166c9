/-
# ScanChain.Proofs.Stream — the stream of bits that words hold, by place

Packing goes from a list of bits to words and reading goes back; what both mean is said here by
place. `Word.streamBit` is bit `31 - q % 32` of word `q / 32`, and it is the bit at place `q` of
the unpacked words (`streamBit_eq`) and of the stream that was packed (`streamBit_pack`). A bit
string that is written most significant bit first has bit `k` at place `width - 1 - k`
(`getD_msbFirst`).
-/
import Mathlib.Data.List.GetD
import ScanChain.Word.Lemmas

namespace ScanChain

/-! ## Bits of a list by place -/

section Places

variable {bits : List Bool}

theorem getD_drop (start q : Nat) :
    (bits.drop start).getD q false = bits.getD (start + q) false := by
  simp [List.getD_eq_getElem?_getD]

/-- Zeros after the end change no bit. -/
theorem getD_append_replicate_false (count q : Nat) :
    (bits ++ List.replicate count false).getD q false = bits.getD q false := by
  rcases Nat.lt_or_ge q bits.length with hlt | hge
  · exact List.getD_append _ _ _ _ hlt
  · rw [List.getD_append_right _ _ _ _ hge, List.getD_eq_default _ _ hge,
      List.getD_eq_getElem?_getD, List.getElem?_getD_replicate_default_eq]

/-- A list has a set bit exactly if it has one at a place. -/
theorem any_id_iff : bits.any id = true ↔ ∃ q, bits.getD q false = true := by
  rw [List.any_eq_true]
  refine ⟨?_, ?_⟩
  · rintro ⟨bit, hmem, hbit⟩
    obtain ⟨q, hq⟩ := List.mem_iff_getElem?.mp hmem
    refine ⟨q, ?_⟩
    rw [List.getD_eq_getElem?_getD, hq]
    exact hbit
  · -- Past the end the default is a clear bit, so a set one is in the list.
    rintro ⟨q, hq⟩
    rcases Nat.lt_or_ge q bits.length with hlt | hge
    · rw [List.getD_eq_getElem _ _ hlt] at hq
      exact ⟨bits[q], List.getElem_mem hlt, hq⟩
    · rw [List.getD_eq_default _ _ hge] at hq
      exact absurd hq Bool.false_ne_true

/-- A stretch of a list has a set bit exactly if the list has one at a place of the stretch. -/
theorem any_id_take_drop_iff (start count : Nat) :
    ((bits.drop start).take count).any id = true ↔
      ∃ q, q < count ∧ bits.getD (start + q) false = true := by
  rw [any_id_iff]
  apply exists_congr
  intro q
  rw [List.getD_eq_getElem?_getD, List.getElem?_take, ← getD_drop, List.getD_eq_getElem?_getD]
  split
  · rename_i hlt
    exact (and_iff_right hlt).symm
  · rename_i hge
    simp [hge]

end Places

/-- Bit `k` of a bit string stands at place `width - 1 - k` of its bits, most significant first. -/
theorem BitString.getD_msbFirst (b : BitString) {k : Nat} (hk : k < b.width) :
    b.msbFirst.getD (b.width - 1 - k) false = b.get k := by
  have hlen : b.width - 1 - k < b.bits.length := by
    rw [BitString.width] at hk ⊢
    omega
  rw [BitString.msbFirst, List.getD_reverse _ hlen, BitString.get]
  congr 1
  rw [BitString.width] at hk ⊢
  omega

namespace Word

/-! ## Bits of words by place -/

/-- The bit at place `q` of the stream that words hold: bit `31 - q % 32` of word `q / 32`. -/
def streamBit (words : List UInt32) (q : Nat) : Bool :=
  (words.getD (q / 32) 0).toNat.testBit (31 - q % 32)

theorem getD_toBits (word : UInt32) {q : Nat} (hq : q < 32) :
    (toBits word).getD q false = word.toNat.testBit (31 - q) := by
  simp [toBits, List.getD_eq_getElem?_getD, hq]

/-- The stream by place is the stream of the unpacked words. -/
theorem streamBit_eq (words : List UInt32) (q : Nat) :
    streamBit words q = (unpack words).getD q false := by
  induction words generalizing q with
  | nil => simp [streamBit, unpack]
  | cons word words ih =>
    rw [unpack_cons]
    -- The first 32 places are those of the first word; later ones move down by a word.
    rcases Nat.lt_or_ge q 32 with hlt | hge
    · rw [List.getD_append _ _ _ _ (by rwa [length_toBits]), getD_toBits word hlt, streamBit]
      have hfirst : q / 32 = 0 := by omega
      have hplace : q % 32 = q := by omega
      rw [hfirst, hplace, List.getD_cons_zero]
    · rw [List.getD_append_right _ _ _ _ (by rwa [length_toBits]), length_toBits, ← ih, streamBit,
        streamBit]
      have hlater : q / 32 = (q - 32) / 32 + 1 := by omega
      have hplace : q % 32 = (q - 32) % 32 := by omega
      rw [hlater, hplace, List.getD_cons_succ]

/-- Packing keeps every bit at its place. -/
theorem streamBit_pack (bits : List Bool) (q : Nat) :
    streamBit (pack bits) q = bits.getD q false := by
  rw [streamBit_eq, unpack_pack, getD_append_replicate_false]

end Word
end ScanChain
