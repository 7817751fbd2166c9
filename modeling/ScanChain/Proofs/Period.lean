/-
# ScanChain.Proofs.Period — words that change places are always noticed

Left to itself, without a word to take in, the signature register goes through all words but zero
before it comes back to where it started: its period is 2^32 - 1 from every state that is not zero.
So two different words of a payload can change places unnoticed only if their distance is a multiple
of that number (`signature_exchange_eq_iff`), and no shorter payload has room for them.

The period is found without going through it. Words are added by exclusive or, and a step without a
word respects sums. A map that respects sums and steps is determined by what it makes of the word
with only the top bit set (`Respects.apply_eq`), so n steps are one word, their product with itself is
2n steps, and a number of steps takes as many products as it has binary digits. The word comes back
after 2^32 - 1 steps, and not after that number divided by one of its primes; and then it has met as
many words as there are.
-/
import Mathlib.Dynamics.PeriodicPts.Defs
import Mathlib.Data.Finset.Card
import Mathlib.Order.Interval.Finset.Nat
import Mathlib.Tactic.NormNum.Prime
import ScanChain.Proofs.Signature

namespace ScanChain.Misr

open Function

/-! ## Sums of words -/

/-- One step of the register without a word. -/
def turn : UInt32 → UInt32 := shifted feedback

/-- A map that respects sums and steps. -/
structure Respects (f : UInt32 → UInt32) : Prop where
  sum : ∀ s t, f (s ^^^ t) = f s ^^^ f t
  step : ∀ s, f (turn s) = turn (f s)

/-- A sum is carried from one side to the other. -/
theorem xor_eq_xor_iff {a b v w : UInt32} : b ^^^ v = a ^^^ w ↔ a ^^^ b = v ^^^ w := by
  have hleft : b ^^^ v ^^^ (v ^^^ a) = a ^^^ b ^^^ (v ^^^ v) := by ac_rfl
  have hright : a ^^^ w ^^^ (v ^^^ a) = v ^^^ w ^^^ (a ^^^ a) := by ac_rfl
  rw [← UInt32.xor_left_inj (v ^^^ a), hleft, hright, UInt32.xor_self, UInt32.xor_self,
    UInt32.xor_zero, UInt32.xor_zero]

section Respects

variable {f g : UInt32 → UInt32}

theorem Respects.zero (hf : Respects f) : f 0 = 0 := by
  have h := hf.sum 0 0
  rwa [UInt32.xor_self, UInt32.xor_self] at h

/-- A sum is odd exactly if one of its two parts is. -/
theorem xor_odd_iff (s t : UInt32) :
    (s ^^^ t).toNat % 2 = 1 ↔ ¬(s.toNat % 2 = 1 ↔ t.toNat % 2 = 1) := by
  have hbit := Nat.testBit_xor s.toNat t.toNat 0
  rw [← UInt32.toNat_xor] at hbit
  simp only [Nat.testBit_zero] at hbit
  rw [← decide_eq_true_iff (p := (s ^^^ t).toNat % 2 = 1), hbit]
  by_cases hs : s.toNat % 2 = 1 <;> by_cases ht : t.toNat % 2 = 1 <;> simp [hs, ht]

theorem turn_sum (s t : UInt32) : turn (s ^^^ t) = turn s ^^^ turn t := by
  have hhalf : (s ^^^ t) >>> 1 = (s >>> 1) ^^^ (t >>> 1) := by
    apply UInt32.toNat_inj.mp
    simp [UInt32.toNat_xor, UInt32.toNat_shiftRight, Nat.shiftRight_xor_distrib]
  -- Feedback that both parts add is taken off again.
  have hback : (if (s ^^^ t) &&& 1 = 1 then feedback else 0) =
      (if s &&& 1 = 1 then feedback else 0) ^^^ (if t &&& 1 = 1 then feedback else 0) := by
    simp only [and_one_eq_iff, xor_odd_iff]
    by_cases hs : s.toNat % 2 = 1 <;> by_cases ht : t.toNat % 2 = 1 <;> simp [hs, ht]
  show (s ^^^ t) >>> 1 ^^^ _ = (s >>> 1 ^^^ _) ^^^ (t >>> 1 ^^^ _)
  rw [hhalf, hback]
  ac_rfl

theorem respects_turn : Respects turn := ⟨turn_sum, fun _ => rfl⟩

theorem respects_id : Respects id := ⟨fun _ _ => rfl, fun _ => rfl⟩

theorem Respects.comp (hf : Respects f) (hg : Respects g) : Respects (f ∘ g) := by
  constructor
  · intro s t
    show f (g (s ^^^ t)) = _
    rw [hg.sum, hf.sum]
    rfl
  · intro s
    show f (g (turn s)) = _
    rw [hg.step, hf.step]
    rfl

theorem respects_iterate (n : Nat) : Respects turn^[n] := by
  induction n with
  | zero => exact respects_id
  | succ n ih => exact ih.comp respects_turn

/-! ## Products of words -/

/-- The word with only the top bit set. -/
def unit : UInt32 := 0x80000000

/-- The sum of the states that `s` goes through, one for each of the low `count` bits of a word that is
set; the lowest of them stands for the last state. -/
def partialProduct (word s : UInt32) : Nat → UInt32
  | 0 => 0
  | count + 1 =>
    turn (partialProduct word s count) ^^^ if word.toNat.testBit count then s else 0

/-- The product of two words: bit `31 - k` of the first stands for `k` steps of the second. -/
def product (word s : UInt32) : UInt32 := partialProduct word s 32

theorem map_partialProduct (hf : Respects f) (word s : UInt32) (count : Nat) :
    f (partialProduct word s count) = partialProduct word (f s) count := by
  induction count with
  | zero => exact hf.zero
  | succ count ih =>
    simp only [partialProduct]
    rw [hf.sum, hf.step, ih]
    split
    · rfl
    · rw [hf.zero]

/-- As long as no bit has gone through the whole word, the low bits of a word stand at its top. -/
theorem testBit_partialProduct_unit (word : UInt32) {count : Nat} (hcount : count ≤ 32) (i : Nat) :
    (partialProduct word unit count).toNat.testBit i =
      (decide (32 ≤ count + i) && decide (i < 32) && word.toNat.testBit (count + i - 32)) := by
  induction count generalizing i with
  | zero =>
    have hlow : (decide (32 ≤ 0 + i) && decide (i < 32)) = false := by
      simp
    show (0 : UInt32).toNat.testBit i = _
    rw [hlow]
    simp
  | succ count ih =>
    have heven : ¬(partialProduct word unit count).toNat % 2 = 1 := by
      have hlowest := ih (by omega) 0
      rw [Nat.testBit_zero] at hlowest
      simpa [show ¬32 ≤ count by omega] using hlowest
    have hturn : turn (partialProduct word unit count) = partialProduct word unit count >>> 1 := by
      show _ ^^^ (if _ then _ else _) = _
      rw [if_neg (mt (and_one_eq_iff _).mp heven), UInt32.xor_zero]
    have hunit : ∀ b : Bool, (if b then unit else 0).toNat.testBit i = (b && decide (31 = i)) := by
      intro b
      cases b
      · simp
      · show (2 ^ 31).testBit i = _
        rw [Nat.testBit_two_pow]
        simp
    simp only [partialProduct]
    rw [hturn, UInt32.toNat_xor, Nat.testBit_xor, toNat_shiftRight_one, ← Nat.testBit_succ,
      ih (by omega), hunit]
    rcases Nat.lt_trichotomy i 31 with hi | rfl | hi
    · have hplace : count + (i + 1) = count + 1 + i := by omega
      simp [hplace, show i + 1 < 32 by omega, show i < 32 by omega, show 31 ≠ i by omega]
    · have hplace : count + 1 + 31 - 32 = count := by omega
      simp [hplace]
    · simp [show ¬i + 1 < 32 by omega, show ¬i < 32 by omega, show 31 ≠ i by omega]

/-- The unit is one. -/
theorem product_unit (word : UInt32) : product word unit = word := by
  apply UInt32.toNat_inj.mp
  apply Nat.eq_of_testBit_eq
  intro i
  rw [product, testBit_partialProduct_unit word (Nat.le_refl 32)]
  by_cases hi : i < 32
  · simp [hi]
  · have hhigh : word.toNat < 2 ^ i :=
      Nat.lt_of_lt_of_le word.toNat_lt (Nat.pow_le_pow_right (by decide) (by omega))
    simp [hi, Nat.testBit_lt_two_pow hhigh]

/-- What respects sums and steps is multiplication by what it makes of the unit. -/
theorem Respects.apply_eq (hf : Respects f) (s : UInt32) : f s = product s (f unit) := by
  calc f s = f (product s unit) := by rw [product_unit]
    _ = product s (f unit) := map_partialProduct hf s unit 32

/-! ## Powers -/

/-- The word that the unit has become after a number of steps, given by its binary digits. -/
def power (digits : List Bool) : UInt32 :=
  digits.foldl (fun word digit => if digit then turn (product word word) else product word word) unit

theorem product_iterate (n : Nat) :
    product (turn^[n] unit) (turn^[n] unit) = turn^[n + n] unit := by
  rw [iterate_add_apply, ← (respects_iterate n).apply_eq]

theorem foldl_power (digits : List Bool) (n : Nat) :
    digits.foldl (fun word digit => if digit then turn (product word word) else product word word)
        (turn^[n] unit) =
      turn^[digits.foldl (fun n digit => 2 * n + digit.toNat) n] unit := by
  induction digits generalizing n with
  | nil => rfl
  | cons digit digits ih =>
    have hstep : (if digit then turn (product (turn^[n] unit) (turn^[n] unit))
        else product (turn^[n] unit) (turn^[n] unit)) = turn^[2 * n + digit.toNat] unit := by
      rw [product_iterate, ← Nat.two_mul]
      cases digit
      · rfl
      · exact (iterate_succ_apply' turn (2 * n) unit).symm
    rw [List.foldl_cons, hstep, ih]
    rfl

theorem power_eq (digits : List Bool) : power digits = turn^[Word.natOfBits digits] unit :=
  foldl_power digits 0

theorem power_toBits (count : UInt32) : power (Word.toBits count) = turn^[count.toNat] unit := by
  rw [power_eq, Word.natOfBits_toBits]

end Respects

/-! ## The period -/

/-- The unit comes back after 2^32 - 1 steps. -/
theorem isPeriodicPt_unit : IsPeriodicPt turn (2 ^ 32 - 1) unit := by
  have hpower : power (Word.toBits 0xffffffff) = unit := by decide +kernel
  rw [power_toBits] at hpower
  exact hpower

/-- The primes of 2^32 - 1. -/
theorem mem_of_prime_of_dvd {p : Nat} (hp : p.Prime) (hdvd : p ∣ 2 ^ 32 - 1) :
    p ∈ [3, 5, 17, 257, 65537] := by
  have hfactors : 2 ^ 32 - 1 = 3 * 5 * 17 * 257 * 65537 := by norm_num
  have hprime (q : Nat) (hq : q.Prime) (h : p ∣ q) : p = q :=
    (Nat.prime_dvd_prime_iff_eq hp hq).mp h
  rw [hfactors] at hdvd
  simp only [List.mem_cons, List.not_mem_nil, or_false]
  rcases hp.dvd_mul.mp hdvd with hdvd | hdvd
  · rcases hp.dvd_mul.mp hdvd with hdvd | hdvd
    · rcases hp.dvd_mul.mp hdvd with hdvd | hdvd
      · rcases hp.dvd_mul.mp hdvd with hdvd | hdvd
        · exact Or.inl (hprime 3 (by norm_num) hdvd)
        · exact Or.inr (Or.inl (hprime 5 (by norm_num) hdvd))
      · exact Or.inr (Or.inr (Or.inl (hprime 17 (by norm_num) hdvd)))
    · exact Or.inr (Or.inr (Or.inr (Or.inl (hprime 257 (by norm_num) hdvd))))
  · exact Or.inr (Or.inr (Or.inr (Or.inr (hprime 65537 (by norm_num) hdvd))))

/-- It has not come back after that number divided by one of its primes. -/
theorem not_isPeriodicPt_unit {p : Nat} (hp : p ∈ [3, 5, 17, 257, 65537]) :
    ¬IsPeriodicPt turn ((2 ^ 32 - 1) / p) unit := by
  have hpowers : ∀ p ∈ [3, 5, 17, 257, 65537],
      power (Word.toBits (UInt32.ofNat ((2 ^ 32 - 1) / p))) ≠ unit := by
    decide +kernel
  have hpower := hpowers p hp
  have hsmall : (2 ^ 32 - 1) / p < 2 ^ 32 := by
    have := Nat.div_le_self (2 ^ 32 - 1) p
    omega
  rw [power_toBits, UInt32.toNat_ofNat_of_lt' hsmall] at hpower
  exact hpower

theorem minimalPeriod_unit : minimalPeriod turn unit = 2 ^ 32 - 1 := by
  obtain ⟨k, hk⟩ := isPeriodicPt_unit.minimalPeriod_dvd
  by_contra hne
  have hk1 : k ≠ 1 := by
    rintro rfl
    exact hne (by rw [hk, Nat.mul_one])
  -- A smaller period would divide the number without one of its primes.
  obtain ⟨p, hp, q, rfl⟩ := Nat.exists_prime_and_dvd hk1
  have hdiv : (2 ^ 32 - 1) / p = minimalPeriod turn unit * q := by
    rw [hk, Nat.mul_left_comm, Nat.mul_div_cancel_left _ hp.pos]
  have hdvd : p ∣ 2 ^ 32 - 1 := by
    rw [hk]
    exact ⟨minimalPeriod turn unit * q, by rw [Nat.mul_left_comm]⟩
  apply not_isPeriodicPt_unit (mem_of_prime_of_dvd hp hdvd)
  rw [hdiv]
  exact (isPeriodicPt_minimalPeriod turn unit).mul_const q

theorem turn_injective : Injective turn := fun _ _ h => shifted_injective feedback_top h

theorem iterate_unit_ne_zero (n : Nat) : turn^[n] unit ≠ 0 := by
  intro h
  have hzero : turn^[n] unit = turn^[n] 0 := by rw [h, (respects_iterate n).zero]
  exact absurd (turn_injective.iterate n hzero) (by decide)

/-- There are no more words than the unit goes through. -/
theorem exists_iterate_unit {s : UInt32} (hs : s ≠ 0) : ∃ n, turn^[n] unit = s := by
  let reached (n : Nat) : Nat := (turn^[n] unit).toNat
  have hmaps : Set.MapsTo reached (Finset.range (2 ^ 32 - 1)) (Finset.Ico 1 (2 ^ 32)) := by
    intro n _
    have hpos : 0 < reached n :=
      Nat.pos_of_ne_zero fun h => iterate_unit_ne_zero n (UInt32.toNat_inj.mp h)
    exact Finset.mem_coe.mpr (Finset.mem_Ico.mpr ⟨hpos, UInt32.toNat_lt _⟩)
  have hinj : Set.InjOn reached (Finset.range (2 ^ 32 - 1)) := by
    intro m hm n hn h
    have hmem := iterate_injOn_Iio_minimalPeriod (f := turn) (x := unit)
    rw [minimalPeriod_unit] at hmem
    exact hmem (by simpa using hm) (by simpa using hn) (UInt32.toNat_inj.mp h)
  have hcard : (Finset.Ico 1 (2 ^ 32)).card ≤ (Finset.range (2 ^ 32 - 1)).card := by
    rw [Nat.card_Ico, Finset.card_range]
  have hs' : s.toNat ∈ Finset.Ico 1 (2 ^ 32) := by
    have hpos : 0 < s.toNat := Nat.pos_of_ne_zero fun h => hs (UInt32.toNat_inj.mp h)
    exact Finset.mem_Ico.mpr ⟨hpos, s.toNat_lt⟩
  obtain ⟨n, -, hn⟩ := Finset.surjOn_of_injOn_of_card_le reached hmaps hinj hcard hs'
  exact ⟨n, UInt32.toNat_inj.mp hn⟩

/-- Every state but zero has the full period. -/
theorem minimalPeriod_turn {s : UInt32} (hs : s ≠ 0) : minimalPeriod turn s = 2 ^ 32 - 1 := by
  obtain ⟨n, rfl⟩ := exists_iterate_unit hs
  have hunit : unit ∈ periodicPts turn := mk_mem_periodicPts (by decide) isPeriodicPt_unit
  rw [minimalPeriod_apply_iterate hunit, minimalPeriod_unit]

theorem iterate_turn_eq_iff {s : UInt32} {n : Nat} :
    turn^[n] s = s ↔ s = 0 ∨ 2 ^ 32 - 1 ∣ n := by
  by_cases hs : s = 0
  · subst hs
    simp [(respects_iterate n).zero]
  · rw [← minimalPeriod_turn hs, ← isPeriodicPt_iff_minimalPeriod_dvd]
    simp [hs, IsPeriodicPt, IsFixedPt]

/-! ## Exchanged words -/

section Exchange

variable {s t v w : UInt32} {words before between after : List UInt32} {i j : Nat}

theorem run_append : run feedback s (words ++ after) = run feedback (run feedback s words) after :=
  List.foldl_append

/-- A part of the state goes its own way, whatever words are taken in. -/
theorem run_sum (words : List UInt32) :
    run feedback (s ^^^ t) words = turn^[words.length] s ^^^ run feedback t words := by
  induction words generalizing s t with
  | nil => rfl
  | cons word words ih =>
    have hstep : absorb feedback (s ^^^ t) word = turn s ^^^ absorb feedback t word := by
      show turn (s ^^^ t) ^^^ word = turn s ^^^ (turn t ^^^ word)
      rw [turn_sum]
      ac_rfl
    rw [run_cons, run_cons, hstep, ih]
    rfl

/-- The state after a word, further words and another word. -/
theorem run_between (s v w : UInt32) (between : List UInt32) :
    run feedback s (v :: (between ++ [w])) =
      turn^[between.length + 1] v ^^^ w ^^^ turn (run feedback (turn s) between) := by
  have hfirst : absorb feedback s v = v ^^^ turn s := UInt32.xor_comm _ _
  rw [run_cons, run_append, hfirst, run_sum]
  show turn (turn^[between.length] v ^^^ run feedback (turn s) between) ^^^ w = _
  rw [turn_sum, iterate_succ_apply' turn]
  ac_rfl

/-- Two words change places unnoticed exactly if their sum is back after as many steps as they are
apart. -/
theorem run_exchange_eq_iff :
    run feedback s (before ++ w :: (between ++ v :: after)) =
        run feedback s (before ++ v :: (between ++ w :: after)) ↔
      turn^[between.length + 1] (v ^^^ w) = v ^^^ w := by
  have hsplit (x y : UInt32) : before ++ x :: (between ++ y :: after) =
      before ++ (x :: (between ++ [y])) ++ after := by
    simp
  have hafter {x y : UInt32} : run feedback x after = run feedback y after ↔ x = y :=
    ⟨run_injective feedback_top, fun h => by rw [h]⟩
  rw [hsplit, hsplit, run_append, run_append, run_append, run_append, hafter, run_between,
    run_between, UInt32.xor_left_inj, (respects_iterate _).sum, xor_eq_xor_iff]

/-- A list with two of its words exchanged. -/
theorem exists_split (hij : i < j) (hv : words[i]? = some v) (hw : words[j]? = some w) :
    ∃ before between after, words = before ++ v :: (between ++ w :: after) ∧
      (words.set i w).set j v = before ++ w :: (between ++ v :: after) ∧
      between.length + 1 = j - i := by
  obtain ⟨hi, hv⟩ := List.getElem?_eq_some_iff.mp hv
  obtain ⟨hj, hw⟩ := List.getElem?_eq_some_iff.mp hw
  have hsplit : words = words.take i ++
      v :: ((words.drop (i + 1)).take (j - i - 1) ++ w :: words.drop (j + 1)) := by
    have hlast : (words.drop (i + 1)).drop (j - i - 1) = w :: words.drop (j + 1) := by
      rw [List.drop_drop, show i + 1 + (j - i - 1) = j by omega, List.drop_eq_getElem_cons hj, hw]
    rw [← hlast, List.take_append_drop, ← hv, List.getElem_cons_drop, List.take_append_drop]
  have hbefore : (words.take i).length = i := by simp; omega
  have hbetween : ((words.drop (i + 1)).take (j - i - 1)).length = j - i - 1 := by
    simp
    omega
  refine ⟨_, _, _, hsplit, ?_, by omega⟩
  generalize words.take i = before at hsplit hbefore
  generalize (words.drop (i + 1)).take (j - i - 1) = between at hsplit hbetween
  generalize words.drop (j + 1) = after at hsplit
  have hplace : j - before.length = between.length + 1 := by omega
  subst hsplit
  rw [List.set_append_right _ _ (by omega), hbefore, Nat.sub_self, List.set_cons_zero,
    List.set_append_right _ _ (by omega), hplace, List.set_cons_succ,
    List.set_append_right _ _ (by omega), Nat.sub_self, List.set_cons_zero]

/-- Two words of a payload change places unnoticed exactly if they are equal, or as far apart as the
register's period, or a multiple of it. -/
theorem signature_exchange_eq_iff (hij : i < j) (hv : words[i]? = some v) (hw : words[j]? = some w) :
    signature ((words.set i w).set j v) = signature words ↔ v = w ∨ 2 ^ 32 - 1 ∣ j - i := by
  obtain ⟨before, between, after, hwords, hset, hapart⟩ := exists_split hij hv hw
  rw [hset, hwords, signature, signature, run_exchange_eq_iff, iterate_turn_eq_iff, hapart,
    UInt32.xor_eq_zero_iff]

/-- In a payload of fewer than 2^32 words, no two different words can be exchanged without a change
of the signature. -/
theorem exchanged_words_are_noticed (hlen : words.length < 2 ^ 32) (hij : i < j)
    (hv : words[i]? = some v) (hw : words[j]? = some w) (hne : v ≠ w) :
    signature ((words.set i w).set j v) ≠ signature words := by
  intro heq
  have hj : j < words.length := (List.getElem?_eq_some_iff.mp hw).1
  rcases (signature_exchange_eq_iff hij hv hw).mp heq with hsame | hdvd
  · exact hne hsame
  · -- The words would have to be further apart than the payload is long.
    have hfar := Nat.le_of_dvd (by omega) hdvd
    omega

/-- The first and the last of four words, which are one bit apart. -/
theorem exchanged_ends_are_noticed :
    [7, 0, 0, 6].length < 2 ^ 32 ∧ (0 : Nat) < 3 ∧
      ([7, 0, 0, 6] : List UInt32)[0]? = some 7 ∧ ([7, 0, 0, 6] : List UInt32)[3]? = some 6 ∧
      (7 : UInt32) ≠ 6 ∧
      signature ((([7, 0, 0, 6] : List UInt32).set 0 6).set 3 7) ≠ signature [7, 0, 0, 6] :=
  ⟨by decide, by decide, rfl, rfl, by decide,
    exchanged_words_are_noticed (by decide) (by decide) rfl rfl (by decide)⟩

end Exchange
end ScanChain.Misr
