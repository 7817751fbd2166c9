/-
# ScanChain.Proofs.Signature — one wrong word is always noticed

The signature register can be run backwards. The top bit of the feedback word is set, and a state
that was shifted down has it clear, so a step's outcome tells whether feedback was added
(`testBit_shifted`); with the feedback taken off, no bit of the state before is lost. A step is
therefore injective in the state and in the word that it takes in, and what two lists differ in at
one place is carried to the end through all words that follow (`run_set_ne`).

Read back, an image with one wrong word fails at its header if the header is wrong, and otherwise
at its checksum, since either the checksum or the signature of the payload has changed and not both.
-/
import ScanChain.Proofs.RoundTrip

namespace ScanChain

namespace Misr

/-! ## Steps of the register -/

/-- A state shifted down by one place, with the feedback if a one was shifted out. -/
def shifted (feedback state : UInt32) : UInt32 :=
  (state >>> 1) ^^^ (if state &&& 1 = 1 then feedback else 0)

theorem absorb_eq (feedback state word : UInt32) :
    absorb feedback state word = shifted feedback state ^^^ word := rfl

theorem feedback_top : 2 ^ 31 ≤ feedback.toNat := by decide

section Steps

variable {poly : UInt32} {s t : UInt32}

theorem toNat_shiftRight_one (s : UInt32) : (s >>> 1).toNat = s.toNat / 2 :=
  UInt32.toNat_shiftRight s 1

/-- A state is odd exactly if a one is shifted out. -/
theorem and_one_eq_iff (s : UInt32) : s &&& 1 = 1 ↔ s.toNat % 2 = 1 := by
  rw [← UInt32.toNat_inj, UInt32.toNat_and]
  show s.toNat &&& 1 = 1 ↔ _
  rw [Nat.and_one_is_mod]

/-- The top bit after a shift says whether feedback was added. -/
theorem testBit_shifted (htop : 2 ^ 31 ≤ poly.toNat) (s : UInt32) :
    (shifted poly s).toNat.testBit 31 = decide (s.toNat % 2 = 1) := by
  have hlow : (s >>> 1).toNat.testBit 31 = false := by
    apply Nat.testBit_lt_two_pow
    rw [toNat_shiftRight_one]
    have := s.toNat_lt
    omega
  have hhigh : poly.toNat.testBit 31 = true := by
    rw [Nat.testBit_eq_decide_div_mod_eq, decide_eq_true_iff]
    have := poly.toNat_lt
    omega
  rw [shifted, UInt32.toNat_xor, Nat.testBit_xor, hlow, Bool.false_xor]
  by_cases hodd : s.toNat % 2 = 1
  · rw [if_pos ((and_one_eq_iff s).mpr hodd), hhigh, decide_eq_true hodd]
  · rw [if_neg (fun h => hodd ((and_one_eq_iff s).mp h)), decide_eq_false hodd]
    rfl

/-- No two states are shifted to the same one. -/
theorem shifted_injective (htop : 2 ^ 31 ≤ poly.toNat) (h : shifted poly s = shifted poly t) :
    s = t := by
  have hparity : s.toNat % 2 = 1 ↔ t.toNat % 2 = 1 := by
    rw [← decide_eq_decide, ← testBit_shifted htop s, h, testBit_shifted htop t]
  have hones : s &&& 1 = 1 ↔ t &&& 1 = 1 := by
    rw [and_one_eq_iff, and_one_eq_iff, hparity]
  -- The same feedback was added to both, or to neither.
  have hhalf : s >>> 1 = t >>> 1 := by
    rw [shifted, shifted] at h
    simp only [hones] at h
    exact (UInt32.xor_left_inj _).mp h
  have hdiv := congrArg UInt32.toNat hhalf
  rw [toNat_shiftRight_one, toNat_shiftRight_one] at hdiv
  apply UInt32.toNat_inj.mp
  omega

theorem absorb_state_injective (htop : 2 ^ 31 ≤ poly.toNat) {word : UInt32}
    (h : absorb poly s word = absorb poly t word) : s = t := by
  rw [absorb_eq, absorb_eq, UInt32.xor_left_inj] at h
  exact shifted_injective htop h

theorem absorb_word_injective {v w : UInt32} (h : absorb poly s v = absorb poly s w) : v = w := by
  rwa [absorb_eq, absorb_eq, UInt32.xor_right_inj] at h

/-! ## Runs of the register -/

theorem run_cons (word : UInt32) (words : List UInt32) :
    run poly s (word :: words) = run poly (absorb poly s word) words := rfl

/-- Whatever words follow, different states stay different. -/
theorem run_injective (htop : 2 ^ 31 ≤ poly.toNat) {words : List UInt32}
    (h : run poly s words = run poly t words) : s = t := by
  induction words generalizing s t with
  | nil => exact h
  | cons word words ih =>
    rw [run_cons, run_cons] at h
    exact absorb_state_injective htop (ih h)

/-- One word of a list cannot be replaced without a change of the last state. -/
theorem run_set_ne (htop : 2 ^ 31 ≤ poly.toNat) {words : List UInt32} {i : Nat} {w v : UInt32}
    (hw : words[i]? = some w) (hv : v ≠ w) : run poly s (words.set i v) ≠ run poly s words := by
  induction words generalizing s i with
  | nil => simp at hw
  | cons word words ih =>
    cases i with
    | zero =>
      obtain rfl : word = w := Option.some.inj hw
      rw [List.set_cons_zero, run_cons, run_cons]
      intro h
      exact hv (absorb_word_injective (run_injective htop h))
    | succ i =>
      rw [List.set_cons_succ, run_cons, run_cons]
      exact ih hw

end Steps

theorem signature_set_ne {words : List UInt32} {i : Nat} {w v : UInt32}
    (hw : words[i]? = some w) (hv : v ≠ w) : signature (words.set i v) ≠ signature words :=
  run_set_ne feedback_top hw hv

end Misr

namespace ChainLayout

variable {layout : ChainLayout} {resolved : List ResolvedSegment} {image : Image}
variable {words : List UInt32} {w v : UInt32}

/-! ## Words of an image -/

/-- A wrong header is refused as such. -/
theorem refuses_set_header (hframed : layout.Framed words true) (hw : words[0]? = some w)
    (hv : v ≠ w) : layout.Refuses (words.set 0 v) true (.headerMismatch layout.header v) := by
  obtain rfl : layout.header = w := Option.some.inj (hframed.header.symm.trans hw)
  have hlen : 0 < words.length := (List.getElem?_eq_some_iff.mp hw).1
  refine .header ?_ ?_ hv
  · rw [List.length_set, hframed.count]
  · rw [List.getElem?_set_self hlen]

/-- A wrong word behind the header is either the checksum, and the payload is signed as it was, or
it belongs to the payload, and that is signed differently from what the checksum says. -/
theorem checksum_ne_signature_set (hframed : layout.Framed words true) {i : Nat} (hi : i ≠ 0)
    (hw : words[i]? = some w) (hv : v ≠ w) :
    ∃ found, (words.set i v)[1]? = some found ∧
      found ≠ Misr.signature (payloadOf (words.set i v) true) := by
  have hchecksum := hframed.signature rfl
  match i, hi with
  | 1, _ =>
    have hpayload : payloadOf (words.set 1 v) true = payloadOf words true :=
      List.drop_set_of_lt (by decide)
    obtain rfl : Misr.signature (payloadOf words true) = w :=
      Option.some.inj (hchecksum.symm.trans hw)
    have hlen : 1 < words.length := (List.getElem?_eq_some_iff.mp hw).1
    refine ⟨v, List.getElem?_set_self hlen, ?_⟩
    rwa [hpayload]
  | j + 2, _ =>
    have hpayload : payloadOf (words.set (j + 2) v) true = (payloadOf words true).set j v := by
      show (words.set (j + 2) v).drop 2 = (words.drop 2).set j v
      rw [List.drop_set, if_neg (by omega), Nat.add_sub_cancel]
    have hword : (payloadOf words true)[j]? = some w := by
      show (words.drop 2)[j]? = some w
      rw [List.getElem?_drop, Nat.add_comm, hw]
    refine ⟨Misr.signature (payloadOf words true), ?_, ?_⟩
    · rw [List.getElem?_set_ne (by omega), hchecksum]
    · rw [hpayload]
      exact (Misr.signature_set_ne hword hv).symm

/-- An image with a checksum is never read with one of its words replaced. A wrong header is refused
as a header; a wrong word at any other place is refused as a checksum, which is then not the
signature of the payload that was found. -/
theorem one_wrong_word_is_refused (h : layout.pack resolved true = .ok image) {i : Nat}
    (hw : image.words[i]? = some w) (hv : v ≠ w) :
    (i = 0 → layout.unpackWords (image.words.set i v) true =
        .error (.headerMismatch layout.header v)) ∧
      (i ≠ 0 → ∃ found, (image.words.set i v)[1]? = some found ∧
        layout.unpackWords (image.words.set i v) true =
          .error (.checksumMismatch
            (Misr.signature (payloadOf (image.words.set i v) true)) found)) := by
  have hframed := framed_of_pack h
  refine ⟨?_, ?_⟩
  · rintro rfl
    exact unpackWords_of_refuses (refuses_set_header hframed hw hv)
  · intro hi
    obtain ⟨found, hfound, hne⟩ := checksum_ne_signature_set hframed hi hw hv
    refine ⟨found, hfound, unpackWords_of_refuses (.signature ?_ ?_ rfl hfound hne)⟩
    · rw [List.length_set, hframed.count]
    · rw [List.getElem?_set_ne hi, hframed.header]

/-- A bit that is flipped in the last of three payload words is found by the checksum. -/
theorem flipped_last_bit_is_refused :
    let layout : ChainLayout :=
      { kind := .length
        chain :=
          { name := "main", segments := [⟨"timer", 0, 70, .cycle 8 1 32 32⟩], nonempty := by decide
            positions := by decide, names_nodup := by decide, fits := by decide } }
    let resolved : List ResolvedSegment :=
      [⟨"timer", 0, [⟨"enable", .ofNat 1 1⟩, ⟨"cycle_count", .ofNat 1 32⟩,
        ⟨"inject_at", .ofNat 7 32⟩]⟩]
    let image : Image :=
      { header := 70, checksum := some 0x60200002, payloadBits := 70
        payload := [0x80000000, 0x80000003, 0x80000000] }
    layout.pack resolved true = .ok image ∧ image.words[4]? = some 0x80000000 ∧
      (0x80000001 : UInt32) ≠ 0x80000000 ∧
      ∃ found, (image.words.set 4 0x80000001)[1]? = some found ∧
        layout.unpackWords (image.words.set 4 0x80000001) true =
          .error (.checksumMismatch
            (Misr.signature (payloadOf (image.words.set 4 0x80000001) true)) found) := by
  intro layout resolved image
  have hpack : layout.pack resolved true = .ok image := by decide +kernel
  have hword : image.words[4]? = some 0x80000000 := rfl
  have hne : (0x80000001 : UInt32) ≠ 0x80000000 := by decide
  exact ⟨hpack, hword, hne, (one_wrong_word_is_refused hpack hword hne).2 (by decide)⟩

end ChainLayout
end ScanChain
