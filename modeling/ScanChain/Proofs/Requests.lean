/-
# ScanChain.Proofs.Requests — what a run of requests takes from the stream

One stream answers requests for masks one after the other. A request with a probability takes one
word for each bit of its mask, and a request with any other number is refused and takes nothing, so
the place at which a request is answered is the number of mask bits before it (`answers_rest`).

`Accounts` is what one request does, word by word, and holds of every request of every run
(`accounts_answers`). Two runs with the same widths meet the same words, so of two probabilities the
greater sets every bit that the other one sets (`answers_within`).
-/
import ScanChain.Proofs.Draws
import ScanChain.Proofs.Stream
import ScanChain.Proofs.Threshold

namespace ScanChain

/-- A mask that is asked for. -/
structure MaskRequest where
  probability : Binary64
  width : Nat

namespace MaskRequest

/-- The words that a request takes from the stream. -/
def draws (r : MaskRequest) : Nat := if r.probability.isProbability then r.width else 0

/-- Two requests for one width, with probabilities of which the second is not the smaller one. -/
def AtMost (r s : MaskRequest) : Prop :=
  r.width = s.width ∧ ∃ p q, r.probability.toRat? = some p ∧ s.probability.toRat? = some q ∧
    0 ≤ p ∧ p ≤ q ∧ q ≤ 1

end MaskRequest

namespace MaskStream

/-! ## Answering -/

/-- The answer to a request, and the stream behind it. A request that is refused leaves the stream
where it is. -/
def answer (stream : MaskStream) (r : MaskRequest) : Option BitString × MaskStream :=
  stream.next r.probability r.width

/-- The answers to requests that are made one after the other, and the stream behind them. -/
def answers (stream : MaskStream) : List MaskRequest → List (Option BitString) × MaskStream
  | [] => ([], stream)
  | r :: requests =>
    let (mask, middle) := stream.answer r
    let (masks, rest) := middle.answers requests
    (mask :: masks, rest)

/-- The place of the stream of a seed before request `k` of a run. -/
def placeBefore (seed : UInt64) (requests : List MaskRequest) (k : Nat) : Nat :=
  ((ofSeed seed).answers (requests.take k)).2.position

/-- A request at a place of the stream of a seed is accounted for. Outside the unit interval it is
refused and takes nothing. Otherwise it is answered with a mask of its width, for which it takes the
words from that place on, the first for the most significant bit; a bit is set where the word lies
below the threshold. -/
structure Accounts (seed : UInt64) (place : Nat) (r : MaskRequest) (answer : Option BitString)
    (next : Nat) : Prop where
  refused : ¬ r.probability.InUnit → answer = none ∧ next = place
  drawn : r.probability.InUnit → ∃ threshold mask,
    Threshold.ofProbability? r.probability = some threshold ∧ answer = some mask ∧
      mask.width = r.width ∧ next = place + r.width ∧
      ∀ j < r.width, mask.get (r.width - 1 - j) = true ↔
        (ChaCha20.wordAt (key seed) (place + j)).toNat < threshold

/-- Every bit of the first answer is set in the second, and both are masks of one width. -/
def Within (answer other : Option BitString) : Prop :=
  ∃ mask mask', answer = some mask ∧ other = some mask' ∧ mask.width = mask'.width ∧
    ∀ i, mask.get i = true → mask'.get i = true

/-! ## One draw -/

section Draw

variable {stream : MaskStream} {threshold width : Nat}

/-- Bit `width - 1 - j` of a mask is drawn `j` places further on. -/
theorem get_draw {j : Nat} (hj : j < width) :
    (stream.draw threshold width).1.get (width - 1 - j) =
      bitAt stream.seed threshold (stream.position + j) := by
  have hwidth : (stream.draw threshold width).1.width = width := width_draw stream threshold width
  have hplace : width - 1 - (width - 1 - j) = j := by omega
  have hbit := BitString.getD_msbFirst (stream.draw threshold width).1 (k := width - 1 - j)
    (by rw [hwidth]; omega)
  rw [hwidth, hplace, msbFirst_draw] at hbit
  rw [← hbit]
  simp [List.getD_eq_getElem?_getD, hj]

/-- A mask has no bits but those that are drawn. -/
theorem get_draw_eq_true_iff {i : Nat} :
    (stream.draw threshold width).1.get i = true ↔
      i < width ∧ bitAt stream.seed threshold (stream.position + (width - 1 - i)) = true := by
  rcases Nat.lt_or_ge i width with hlt | hge
  · have hplace : width - 1 - (width - 1 - i) = i := by omega
    have hbit : (stream.draw threshold width).1.get (width - 1 - (width - 1 - i)) =
        bitAt stream.seed threshold (stream.position + (width - 1 - i)) := get_draw (by omega)
    rw [hplace] at hbit
    rw [hbit]
    exact (and_iff_right hlt).symm
  · rw [BitString.get_of_width_le _ (by rw [width_draw]; exact hge)]
    simp [Nat.not_lt.mpr hge]

/-- A greater threshold keeps every bit that is set. -/
theorem get_draw_mono {higher : Nat} (hle : threshold ≤ higher) {i : Nat}
    (h : (stream.draw threshold width).1.get i = true) :
    (stream.draw higher width).1.get i = true := by
  rw [get_draw_eq_true_iff] at h ⊢
  obtain ⟨hi, hbit⟩ := h
  refine ⟨hi, ?_⟩
  rw [bitAt, decide_eq_true_iff] at hbit ⊢
  omega

theorem isAllZero_draw : (stream.draw 0 width).1.isAllZero = true := by
  simp [draw, BitString.isAllZero, BitString.ofMsbFirst]

theorem isAllOne_draw : (stream.draw (2 ^ 32) width).1.isAllOne = true := by
  have hbelow (word : UInt32) : decide (word.toNat < 2 ^ 32) = true :=
    decide_eq_true word.toNat_lt
  simp only [draw, hbelow, BitString.isAllOne, BitString.ofMsbFirst, List.all_reverse]
  simp

end Draw

/-! ## One request -/

section Request

variable {stream : MaskStream} {r s : MaskRequest}

theorem answer_of_refused (h : ¬ r.probability.InUnit) : stream.answer r = (none, stream) := by
  rw [answer, next_of_none (Threshold.ofProbability?_eq_none h)]

theorem answer_of_drawn {threshold : Nat}
    (h : Threshold.ofProbability? r.probability = some threshold) :
    stream.answer r = (some (stream.draw threshold r.width).1, stream.skip r.width) := by
  rw [answer, next_of_threshold h]
  rfl

theorem answer_rest : (stream.answer r).2 = stream.skip r.draws := by
  rw [MaskRequest.draws]
  by_cases hunit : r.probability.InUnit
  · have hprob : r.probability.isProbability = true := Binary64.isProbability_iff.mpr hunit
    obtain ⟨threshold, ht⟩ := Threshold.exists_ofProbability hprob
    rw [answer_of_drawn ht, if_pos hprob]
  · rw [answer_of_refused hunit, if_neg (mt Binary64.isProbability_iff.mp hunit)]
    rfl

/-- Every request is accounted for. -/
theorem accounts_answer :
    Accounts stream.seed stream.position r (stream.answer r).1 (stream.answer r).2.position := by
  constructor
  · intro hunit
    rw [answer_of_refused hunit]
    exact ⟨rfl, rfl⟩
  · intro hunit
    obtain ⟨threshold, ht⟩ :=
      Threshold.exists_ofProbability (Binary64.isProbability_iff.mpr hunit)
    rw [answer_of_drawn ht]
    refine ⟨threshold, _, ht, rfl, width_draw stream threshold r.width, rfl, ?_⟩
    intro j hj
    rw [get_draw hj, bitAt, decide_eq_true_iff]

/-- Of two requests at one place the one with the greater probability sets all bits of the other, and
both leave the stream at one place. -/
theorem answer_within (stream : MaskStream) (h : r.AtMost s) :
    Within (stream.answer r).1 (stream.answer s).1 ∧
      (stream.answer r).2 = (stream.answer s).2 := by
  obtain ⟨hwidth, p, q, hp, hq, hlow, hle, hhigh⟩ := h
  have hr := Threshold.ofProbability?_eq hp hlow (hle.trans hhigh)
  have hs := Threshold.ofProbability?_eq hq (hlow.trans hle) hhigh
  have hmono := Threshold.ofProbability?_mono hp hq hlow hle hhigh hr hs
  rw [answer_of_drawn hr, answer_of_drawn hs, hwidth]
  refine ⟨⟨_, _, rfl, rfl, ?_, ?_⟩, rfl⟩
  · rw [width_draw, width_draw]
  · intro i hi
    exact get_draw_mono hmono hi

end Request

/-! ## A run of requests -/

section Run

variable {stream : MaskStream} {r : MaskRequest} {requests others : List MaskRequest} {k : Nat}

theorem answers_cons :
    stream.answers (r :: requests) =
      ((stream.answer r).1 :: ((stream.answer r).2.answers requests).1,
        ((stream.answer r).2.answers requests).2) := rfl

/-- A run takes what its requests take. -/
theorem answers_rest :
    (stream.answers requests).2 = stream.skip (requests.map (·.draws)).sum := by
  induction requests generalizing stream with
  | nil => rfl
  | cons r requests ih =>
    show ((stream.answer r).2.answers requests).2 = _
    rw [ih, answer_rest, skip_skip, List.map_cons, List.sum_cons]

/-- The answer to a request is given where the requests before it have left the stream. -/
theorem getElem?_answers (hr : requests[k]? = some r) :
    (stream.answers requests).1[k]? =
      some ((stream.answers (requests.take k)).2.answer r).1 := by
  induction requests generalizing stream k with
  | nil => simp at hr
  | cons first requests ih =>
    cases k with
    | zero =>
      obtain rfl : first = r := Option.some.inj hr
      rfl
    | succ k =>
      show ((stream.answer first).2.answers requests).1[k]? = _
      rw [ih hr, List.take_succ_cons]
      rfl

theorem answers_take_succ (hr : requests[k]? = some r) :
    (stream.answers (requests.take (k + 1))).2 =
      ((stream.answers (requests.take k)).2.answer r).2 := by
  rw [answer_rest, answers_rest, answers_rest, skip_skip, List.take_add_one, hr]
  simp

/-- Every request of a run is accounted for. -/
theorem accounts_answers (hr : requests[k]? = some r) :
    ∃ mask, (stream.answers requests).1[k]? = some mask ∧
      Accounts stream.seed (stream.answers (requests.take k)).2.position r mask
        (stream.answers (requests.take (k + 1))).2.position := by
  have hseed : (stream.answers (requests.take k)).2.seed = stream.seed := by
    rw [answers_rest]
    rfl
  refine ⟨_, getElem?_answers hr, ?_⟩
  rw [answers_take_succ hr, ← hseed]
  exact accounts_answer

/-- Two runs with the same widths: where the probabilities grow, the masks do. -/
theorem answers_within (h : List.Forall₂ MaskRequest.AtMost requests others) :
    List.Forall₂ Within (stream.answers requests).1 (stream.answers others).1 := by
  induction h generalizing stream with
  | nil => exact .nil
  | cons hfirst _ ih =>
    obtain ⟨hmask, hrest⟩ := answer_within stream hfirst
    rw [answers_cons, answers_cons, hrest]
    exact .cons hmask ih

end Run

/-! ## The key -/

/-- The words of a key, in order. -/
def keyWords (key : ChaCha20.Key) : List UInt32 :=
  [key.k0, key.k1, key.k2, key.k3, key.k4, key.k5, key.k6, key.k7]

/-- The key of a seed is made of the bytes of the seed and zeros. -/
theorem toBytes_keyWords (seed : UInt64) : Word.toBytes (keyWords (key seed)) = keyBytes seed := by
  have hword (n : Nat) :
      Word.littleEndian 4 (UInt32.ofNat n).toNat = Word.littleEndian 4 n := by
    rw [UInt32.toNat_ofNat']
    exact Word.littleEndian_mod 4 n
  have hzeros : [(0 : UInt32), 0, 0, 0, 0, 0].flatMap (fun word => Word.littleEndian 4 word.toNat) =
      List.replicate 24 0 := rfl
  show Word.littleEndian 4 (UInt32.ofNat seed.toNat).toNat ++
    (Word.littleEndian 4 (UInt32.ofNat (seed.toNat / 2 ^ 32)).toNat ++
      [(0 : UInt32), 0, 0, 0, 0, 0].flatMap fun word => Word.littleEndian 4 word.toNat) = _
  rw [hword, hword, hzeros, ← List.append_assoc]
  show _ = Word.littleEndian (4 + 4) seed.toNat ++ _
  rw [Word.littleEndian_add]

/-! ## All requests -/

/-- The stream of a seed has the bytes of the seed for its key. In every run of requests on it each
request is accounted for at the place where those before it have left the stream; greater
probabilities set all bits that smaller ones set; at zero and at one all bits are alike, at every
place; and a mask of two widths together is the mask of the one and then that of the other. -/
theorem requests_are_accounted_for (seed : UInt64) :
    Word.toBytes (keyWords (key seed)) = keyBytes seed ∧
    (∀ requests : List MaskRequest, placeBefore seed requests 0 = 0 ∧
      ∀ k r, requests[k]? = some r → ∃ mask, ((ofSeed seed).answers requests).1[k]? = some mask ∧
        Accounts seed (placeBefore seed requests k) r mask (placeBefore seed requests (k + 1))) ∧
    (∀ requests others, List.Forall₂ MaskRequest.AtMost requests others →
      List.Forall₂ Within ((ofSeed seed).answers requests).1 ((ofSeed seed).answers others).1) ∧
    (∀ place width (x : Binary64), x.toRat? = some 0 → ∃ mask rest,
      next? ⟨seed, place⟩ x width = some (mask, rest) ∧ mask.width = width ∧
        mask.isAllZero = true) ∧
    (∀ place width (x : Binary64), x.toRat? = some 1 → ∃ mask rest,
      next? ⟨seed, place⟩ x width = some (mask, rest) ∧ mask.width = width ∧
        mask.isAllOne = true) ∧
    ∀ place m n (x : Binary64), x.InUnit → ∃ first middle second whole rest,
      next? ⟨seed, place⟩ x m = some (first, middle) ∧
      middle.next? x n = some (second, rest) ∧
      next? ⟨seed, place⟩ x (m + n) = some (whole, rest) ∧
      whole.msbFirst = first.msbFirst ++ second.msbFirst := by
  refine ⟨toBytes_keyWords seed, ?_, ?_, ?_, ?_, ?_⟩
  · intro requests
    refine ⟨rfl, ?_⟩
    intro k r hr
    exact accounts_answers hr
  · intro requests others h
    exact answers_within h
  · intro place width x hx
    have ht := Threshold.ofProbability?_of_zero hx
    exact ⟨_, _, next?_of_threshold ht _, width_draw _ _ _, isAllZero_draw⟩
  · intro place width x hx
    have ht := Threshold.ofProbability?_of_one hx
    exact ⟨_, _, next?_of_threshold ht _, width_draw _ _ _, isAllOne_draw⟩
  · intro place m n x hunit
    obtain ⟨threshold, ht⟩ :=
      Threshold.exists_ofProbability (Binary64.isProbability_iff.mpr hunit)
    refine ⟨_, _, _, _, _, next?_of_threshold ht m, next?_of_threshold ht n, ?_, msbFirst_draw_add m n⟩
    rw [next?_of_threshold ht]
    show _ = some (_, (skip ⟨seed, place⟩ m).skip n)
    rw [skip_skip]
    rfl

/-- A request that is no number is refused between two masks and takes nothing from them, and masks at
a quarter lie within those at a half. -/
theorem refusal_between_masks :
    let half : Binary64 := .ofCode false (1022 * 2 ^ 52)
    let quarter : Binary64 := .ofCode false (1021 * 2 ^ 52)
    let requests : List MaskRequest := [⟨half, 5⟩, ⟨.nan, 3⟩, ⟨half, 4⟩]
    placeBefore 7 requests 1 = 5 ∧ placeBefore 7 requests 2 = 5 ∧ placeBefore 7 requests 3 = 9 ∧
      Accounts 7 5 ⟨.nan, 3⟩ none 5 ∧ Accounts 7 5 ⟨half, 4⟩ (some (.ofNat 11 4)) 9 ∧
      ((ofSeed 7).answers [⟨quarter, 5⟩, ⟨quarter, 4⟩]).1 =
        [some (.ofNat 6 5), some (.ofNat 10 4)] ∧
      List.Forall₂ Within [some (.ofNat 6 5), some (.ofNat 10 4)]
        [some (.ofNat 15 5), some (.ofNat 11 4)] := by
  intro half quarter requests
  obtain ⟨-, hruns, hwithin, -⟩ := requests_are_accounted_for 7
  have hfirst : placeBefore 7 requests 1 = 5 := by decide +kernel
  have hsecond : placeBefore 7 requests 2 = 5 := by decide +kernel
  have hthird : placeBefore 7 requests 3 = 9 := by decide +kernel
  have hmasks : ((ofSeed 7).answers requests).1 =
      [some (.ofNat 15 5), none, some (.ofNat 11 4)] := by decide +kernel
  have hlower : ((ofSeed 7).answers [⟨quarter, 5⟩, ⟨quarter, 4⟩]).1 =
      [some (.ofNat 6 5), some (.ofNat 10 4)] := by decide +kernel
  have hupper : ((ofSeed 7).answers [⟨half, 5⟩, ⟨half, 4⟩]).1 =
      [some (.ofNat 15 5), some (.ofNat 11 4)] := by decide +kernel
  refine ⟨hfirst, hsecond, hthird, ?_, ?_, hlower, ?_⟩
  · obtain ⟨mask, hmask, haccounts⟩ := (hruns requests).2 1 ⟨.nan, 3⟩ rfl
    rw [hmasks] at hmask
    obtain rfl := Option.some.inj hmask
    rwa [hfirst, hsecond] at haccounts
  · obtain ⟨mask, hmask, haccounts⟩ := (hruns requests).2 2 ⟨half, 4⟩ rfl
    rw [hmasks] at hmask
    obtain rfl := Option.some.inj hmask
    rwa [hsecond, hthird] at haccounts
  · have hquarter : quarter.toRat? = some (1 / 4) := by
      norm_num [quarter, Binary64.toRat?, Binary64.exponentField, Binary64.fractionField,
        Binary64.sign, Binary64.ofCode, Binary64.isNegative]
    have hhalf : half.toRat? = some (1 / 2) := by
      norm_num [half, Binary64.toRat?, Binary64.exponentField, Binary64.fractionField,
        Binary64.sign, Binary64.ofCode, Binary64.isNegative]
    have hatMost (width : Nat) : MaskRequest.AtMost ⟨quarter, width⟩ ⟨half, width⟩ :=
      ⟨rfl, _, _, hquarter, hhalf, by norm_num, by norm_num, by norm_num⟩
    have h := hwithin [⟨quarter, 5⟩, ⟨quarter, 4⟩] [⟨half, 5⟩, ⟨half, 4⟩]
      (.cons (hatMost 5) (.cons (hatMost 4) .nil))
    rwa [hlower, hupper] at h

end MaskStream
end ScanChain
