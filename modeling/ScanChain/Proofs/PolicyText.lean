/-
# ScanChain.Proofs.PolicyText — a policy survives its text

The text of a policy keeps its numbers and drops the widths of its bit strings, which come back rounded
up to whole digits (`Policy.wholeDigits`). So a policy is in general not read back as itself, but the
width of a bit string has no part in what fills a field, or in why a field cannot be filled
(`Policy.resolve_eq_of_sameNumbers`): what counts is the number, and the width that a refusal quotes is
that of the number.

The probability is read back as far as its digits are, which is a matter of the numbers of a text alone
(`Json.Reader.ReadsBack`).
-/
import ScanChain.Policy.Json
import ScanChain.Proofs.Filling
import ScanChain.Proofs.HexText
import ScanChain.Proofs.Readers

namespace ScanChain

open Json Json.Reader

/-! ## Widths have no part in resolving -/

namespace Policy

/-- The parameters of both policies are the same numbers. -/
structure SameNumbers (p q : Policy) : Prop where
  mask : p.mask.toNat = q.mask.toNat
  stuckAtValue : p.stuckAtValue.toNat = q.stuckAtValue.toNat
  probability : p.probability = q.probability
  seed : p.seed = q.seed
  cycle : p.cycle = q.cycle
  cycleInjectAt : p.cycleInjectAt = q.cycleInjectAt

variable {p q : Policy} (h : p.SameNumbers q)
include h

theorem fieldValue_eq_of_sameNumbers : Resolution.fieldValue p = Resolution.fieldValue q := by
  have hfixed : Resolution.fixedValue p = Resolution.fixedValue q := by
    funext segment field
    simp only [Resolution.fixedValue, Resolution.fitBits_eq, h.mask, h.stuckAtValue, h.probability,
      h.seed, h.cycle, h.cycleInjectAt]
  funext segment stream field
  simp only [Resolution.fieldValue, hfixed, h.probability]

theorem resolveFields_eq_of_sameNumbers (segment : String) (stream : MaskStream)
    (fields : List PlacedField) :
    Resolution.resolveFields p segment stream fields =
      Resolution.resolveFields q segment stream fields := by
  induction fields generalizing stream with
  | nil => rfl
  | cons field fields ih =>
    simp only [Resolution.resolveFields, fieldValue_eq_of_sameNumbers h, ih]

theorem resolveSegments_eq_of_sameNumbers (stream : MaskStream) (segments : List PlacedSegment) :
    Resolution.resolveSegments p stream segments = Resolution.resolveSegments q stream segments := by
  induction segments generalizing stream with
  | nil => rfl
  | cons s segments ih =>
    simp only [Resolution.resolveSegments, resolveFields_eq_of_sameNumbers h, ih]

/-- Policies with the same numbers fill the segments of a chain alike, and are refused alike. -/
theorem resolve_eq_of_sameNumbers (segments : List PlacedSegment) :
    p.resolve segments = q.resolve segments := by
  simp only [resolve, validate, h.probability, h.seed, resolveSegments_eq_of_sameNumbers h]

end Policy

/-! ## The text of a policy -/

theorem BitString.reads_toJson (b : BitString) :
    Reads BitString.reader b.toJson.lexemes b.wholeDigits := by
  refine (reads_text _).whole ?_
  rw [ofFileText_toHex]
  exact .pure _

theorem Policy.reads_word64 (n : UInt64) : Reads word64 (Value.count n.toNat).lexemes n := by
  have hread := (reads_natural (ε := BitString.HexError) n.toNat_lt).map UInt64.ofNat
  rwa [UInt64.ofNat_toNat] at hread

namespace Policy

/-- The policy with its bit strings at widths of whole digits. -/
def wholeDigits (policy : Policy) : Policy :=
  { policy with
    mask := policy.mask.wholeDigits
    stuckAtValue := policy.stuckAtValue.wholeDigits }

theorem sameNumbers_wholeDigits (policy : Policy) : policy.wholeDigits.SameNumbers policy where
  mask := BitString.toNat_wholeDigits _
  stuckAtValue := BitString.toNat_wholeDigits _
  probability := rfl
  seed := rfl
  cycle := rfl
  cycleInjectAt := rfl

section Texts

variable {policy : Policy} (h : ReadsBack policy.probability)
include h

theorem lexable_toJson : policy.toJson.Lexable := by
  rw [toJson, Value.Lexable, Value.lexableMembers_iff]
  simp only [List.forall_mem_cons, List.not_mem_nil, false_imp_iff, implies_true, and_true]
  exact ⟨trivial, trivial, h.lexable, trivial, trivial, trivial⟩

theorem reads_toJson :
    Reads (record shape readParameter inert) policy.toJson.lexemes policy.wholeDigits := by
  apply reads_record
  · exact .cons ((BitString.reads_toJson _).whole (.pure _)) <|
      .cons ((BitString.reads_toJson _).whole (.pure _)) <|
      .cons ((reads_binary64 h).whole (.pure _)) <| .cons ((reads_word64 _).whole (.pure _)) <|
      .cons ((reads_word64 _).whole (.pure _)) <| .cons ((reads_word64 _).whole (.pure _)) (.nil _)
  · simp [shape, Parameter.name]
  · simp [Parameter.name]
  · simp [shape]

/-- Both texts of a policy are read as the policy with its bit strings at widths of whole digits. -/
theorem ofJson_toJson {text : String}
    (htext : text = policy.toJson.compact ∨ text = policy.toJson.pretty) :
    ofJson text = .ok policy.wholeDigits := by
  have htokens : tokens text.toList = policy.toJson.lexemes := by
    rcases htext with rfl | rfl
    · exact Value.tokens_compact (lexable_toJson h)
    · exact Value.tokens_pretty (lexable_toJson h)
  refine run_of_reads ?_
  rw [htokens]
  exact reads_toJson h

/-- If the digits of its probability are read back, a policy is read back from its text up to the widths
of its bit strings, which are rounded up to whole digits, and it resolves against every chain as it did
before. -/
theorem text_keeps_numbers {text : String}
    (htext : text = policy.toJson.compact ∨ text = policy.toJson.pretty) :
    ∃ again, ofJson text = .ok again ∧ again.probability = policy.probability ∧
      again.seed = policy.seed ∧ again.cycle = policy.cycle ∧
      again.cycleInjectAt = policy.cycleInjectAt ∧
      again.mask.toNat = policy.mask.toNat ∧
      again.mask.width = 4 * ((policy.mask.width + 3) / 4) ∧
      again.stuckAtValue.toNat = policy.stuckAtValue.toNat ∧
      again.stuckAtValue.width = 4 * ((policy.stuckAtValue.width + 3) / 4) ∧
      (again.mask = policy.mask ↔ 4 ∣ policy.mask.width) ∧
      (again.stuckAtValue = policy.stuckAtValue ↔ 4 ∣ policy.stuckAtValue.width) ∧
      ∀ segments, again.resolve segments = policy.resolve segments :=
  ⟨policy.wholeDigits, ofJson_toJson h htext, rfl, rfl, rfl, rfl, BitString.toNat_wholeDigits _,
    BitString.width_wholeDigits _, BitString.toNat_wholeDigits _, BitString.width_wholeDigits _,
    BitString.wholeDigits_eq_iff, BitString.wholeDigits_eq_iff,
    resolve_eq_of_sameNumbers policy.sameNumbers_wholeDigits⟩

end Texts

/-- A mask of five bits comes back with eight, and a value without bits as it was. -/
theorem five_bits_survive_text :
    let policy : Policy :=
      ⟨⟨[true, false, true, true, true]⟩, ⟨[]⟩, .ofCode false 0x3fb999999999999a, 7, 3, 9⟩
    ReadsBack policy.probability ∧
      policy.toJson.compact = "\x7b\"mask\":\"1d\",\"stuck_at_value\":\"\",\"probability\":0.1," ++
        "\"seed\":7,\"cycle\":3,\"cycle_inject_at\":9\x7d" ∧
      ∃ again, ofJson policy.toJson.compact = .ok again ∧ again.mask.width = 8 ∧
        again.mask ≠ policy.mask ∧ again.stuckAtValue = policy.stuckAtValue ∧
        ∀ segments, again.resolve segments = policy.resolve segments := by
  intro policy
  have hprobability : ReadsBack policy.probability := by
    unfold ReadsBack
    decide +kernel
  obtain ⟨again, hread, -, -, -, -, -, hwidth, -, -, hmask, hvalue, hresolve⟩ :=
    text_keeps_numbers hprobability (Or.inl rfl)
  refine ⟨hprobability, by decide +kernel, again, hread, ?_, ?_, ?_, hresolve⟩
  · rw [hwidth]
    decide
  · rw [ne_eq, hmask]
    decide
  · rw [hvalue]
    decide

end Policy
end ScanChain
