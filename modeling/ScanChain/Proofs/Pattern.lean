/-
# ScanChain.Proofs.Pattern — the self-test pattern is a packed run

The pattern is made word by word from a count of set bits, and packing makes words of a list of bits.
On a run, set bits followed by clear ones, the two agree: a word of a run has its set bits at the top
(`ofBits_run`), and without its first word a run is a run again (`packWords_run`).

The pattern is also written here as a machine does it, into a buffer and with numbers of one word, where
a sum or a product that is no word, a shift by the whole width or an index past the end makes the whole
outcome `none`. `fillWords?_eq` is the invariant of its loop, and `fill?_eq` says that none of this ever
happens.
-/
import ScanChain.Control.Pattern
import ScanChain.Proofs.Packing

namespace ScanChain

/-! ## Runs of bits in words -/

namespace Word

/-- A run of set bits that is followed by clear bits. -/
def run (ones rest : Nat) : List Bool := List.replicate ones true ++ List.replicate rest false

theorem length_run (ones rest : Nat) : (run ones rest).length = ones + rest := by
  simp [run]

theorem take_run (count ones rest : Nat) :
    (run ones rest).take count = run (min count ones) (min (count - ones) rest) := by
  simp [run, List.take_append]

theorem drop_run (count ones rest : Nat) :
    (run ones rest).drop count = run (ones - count) (rest - (count - ones)) := by
  simp [run, List.drop_append]

theorem natOfBits_append_replicate_false (bits : List Bool) (rest : Nat) :
    natOfBits (bits ++ List.replicate rest false) = natOfBits bits * 2 ^ rest := by
  induction rest with
  | zero => simp
  | succ rest ih =>
    rw [List.replicate_succ', ← List.append_assoc, natOfBits, List.foldl_concat, ← natOfBits, ih,
      Nat.pow_succ]
    rw [Bool.toNat_false, Nat.add_zero, Nat.mul_comm 2, Nat.mul_assoc]

theorem natOfBits_replicate_true (ones : Nat) :
    natOfBits (List.replicate ones true) = 2 ^ ones - 1 := by
  rw [natOfBits_eq, BitString.ofMsbFirst, List.reverse_replicate]
  exact BitString.toNat_ones ones

/-- The word of a run has its set bits at the top. -/
theorem ofBits_run {ones rest : Nat} (h : ones + rest ≤ 32) :
    ofBits (run ones rest) = UInt32.ofNat (2 ^ 32 - 2 ^ (32 - ones)) := by
  have hfull : rest + (32 - (ones + rest)) = 32 - ones := by omega
  have hpow : 2 ^ ones * 2 ^ (32 - ones) = 2 ^ 32 := by
    rw [← Nat.pow_add]
    congr 1
    omega
  rw [ofBits, length_run, ← natOfBits_append_replicate_false, run, List.append_assoc,
    List.replicate_append_replicate, hfull, natOfBits_append_replicate_false,
    natOfBits_replicate_true, Nat.sub_mul, hpow, Nat.one_mul]

end Word

namespace Control

/-- The words of a run are those of the pattern, as far as they are asked for. -/
theorem packWords_run (count ones rest : Nat) :
    Word.packWords count (Word.run ones rest) = (List.range count).map (patternWord ones) := by
  induction count generalizing ones rest with
  | zero => rfl
  | succ count ih =>
    have hfirst : Word.ofBits ((Word.run ones rest).take 32) = patternWord ones 0 := by
      rw [Word.take_run, Word.ofBits_run (by omega), patternWord, Nat.mul_zero, Nat.sub_zero,
        Nat.min_comm]
    -- Without its first word the run is one of fewer set bits, and the places move down by one.
    have hlater : patternWord (ones - 32) = patternWord ones ∘ Nat.succ := by
      funext i
      have hset : ones - 32 - 32 * i = ones - 32 * (i + 1) := by omega
      rw [patternWord, hset]
      rfl
    rw [Word.packWords, hfirst, Word.drop_run, ih, List.range_succ_eq_map, List.map_cons,
      List.map_map, hlater]

theorem pack_run {ones size : Nat} (h : ones ≤ size) :
    Word.pack (Word.run ones (size - ones)) =
      (List.range (Word.countFor size)).map (patternWord ones) := by
  have hlength : ones + (size - ones) = size := by omega
  rw [Word.pack, Word.length_run, hlength, packWords_run]

/-! ## Steps on words -/

/-- The sum of two words, if it is a word. -/
def add? (x y : UInt32) : Option UInt32 :=
  if x.toNat + y.toNat < 2 ^ 32 then some (x + y) else none

/-- The product of two words, if it is a word. -/
def mul? (x y : UInt32) : Option UInt32 :=
  if x.toNat * y.toNat < 2 ^ 32 then some (x * y) else none

/-- A word that is shifted down by less than its width. -/
def shiftRight? (x amount : UInt32) : Option UInt32 :=
  if amount < 32 then some (x >>> amount) else none

/-- An index as a word, if it is one. -/
def indexWord? (index : Nat) : Option UInt32 :=
  if index < 2 ^ 32 then some (UInt32.ofNat index) else none

/-- The buffer with one word replaced, if there is one at the index. -/
def store? (buffer : List UInt32) (index : Nat) (word : UInt32) : Option (List UInt32) :=
  if index < buffer.length then some (buffer.set index word) else none

/-- The words that bits take. -/
def wordsFor? (bits : UInt32) : Option UInt32 :=
  if bits % 32 = 0 then some (bits / 32) else add? (bits / 32) 1

/-- The word with the top bits set. -/
def topBits? (set : UInt32) : Option UInt32 :=
  if set = 0 then some 0
  else if set = 32 then some 0xffffffff
  else (shiftRight? 0xffffffff set).map (~~~ ·)

/-- The word of a run at an index. -/
def runWord? (ones : UInt32) (index : Nat) : Option UInt32 := do
  let start ← mul? (← indexWord? index) 32
  topBits? (min (if start ≤ ones then ones - start else 0) 32)

/-- The buffer with the first words of a run in it, behind its first word. -/
def fillWords? (ones : UInt32) (buffer : List UInt32) : Nat → Option (List UInt32)
  | 0 => some buffer
  | count + 1 => do
    let filled ← fillWords? ones buffer count
    store? filled (1 + count) (← runWord? ones count)

/-- The pattern written into a buffer word by word: the count of words written, and the buffer after it.
The whole outcome is `none` if a sum, a product or an index is no word, a shift is too wide or an index
is out of range. -/
def fill? (ones size : UInt32) (buffer : List UInt32) : Option (Option Nat × List UInt32) := do
  if size < ones then return (none, buffer)
  let data ← wordsFor? size
  let total ← add? 1 data
  if buffer.length < total.toNat then return (none, buffer)
  let started ← store? buffer 0 size
  let filled ← fillWords? ones started data.toNat
  return (some total.toNat, filled)

theorem add?_eq {x y : UInt32} (h : x.toNat + y.toNat < 2 ^ 32) : add? x y = some (x + y) :=
  if_pos h

theorem toNat_add_of_lt {x y : UInt32} (h : x.toNat + y.toNat < 2 ^ 32) :
    (x + y).toNat = x.toNat + y.toNat := by
  rw [UInt32.toNat_add, Nat.mod_eq_of_lt h]

/-- No shift is by the whole width, as those of all bits and of none are words of their own. -/
theorem topBits?_eq {set : UInt32} (h : set.toNat ≤ 32) :
    topBits? set = some (UInt32.ofNat (2 ^ 32 - 2 ^ (32 - set.toNat))) := by
  unfold topBits?
  split
  · rename_i hzero
    subst hzero
    rfl
  split
  · rename_i hall
    subst hall
    rfl
  · rename_i hsome hall
    have hne : set.toNat ≠ 32 := fun heq => hall (UInt32.toNat_inj.mp heq)
    have hlt : set.toNat < 32 := Nat.lt_of_le_of_ne h hne
    rw [shiftRight?, if_pos (UInt32.lt_iff_toNat_lt.mpr hlt), Option.map_some]
    congr 1
    have hshift : ∀ n < 32, 2 ^ 32 - 1 - (2 ^ 32 - 1) / 2 ^ n = 2 ^ 32 - 2 ^ (32 - n) := by decide
    apply UInt32.toNat_inj.mp
    rw [UInt32.toNat_not, UInt32.toNat_shiftRight, Nat.mod_eq_of_lt hlt, Nat.shiftRight_eq_div_pow,
      UInt32.toNat_ofNat', ← hshift _ hlt]
    exact (Nat.mod_eq_of_lt (Nat.lt_of_le_of_lt (Nat.sub_le _ _) (by decide))).symm

theorem runWord?_eq (ones : UInt32) {index : Nat} (h : 32 * index < 2 ^ 32) :
    runWord? ones index = some (patternWord ones.toNat index) := by
  have hindex : (UInt32.ofNat index).toNat = index := by
    rw [UInt32.toNat_ofNat']
    omega
  have hmul : mul? (UInt32.ofNat index) 32 = some (UInt32.ofNat index * 32) := by
    rw [mul?, if_pos]
    rw [hindex, Nat.mul_comm]
    exact h
  have hstart : (UInt32.ofNat index * 32).toNat = 32 * index := by
    rw [UInt32.toNat_mul, hindex, Nat.mul_comm]
    exact Nat.mod_eq_of_lt h
  have hset : (min (if UInt32.ofNat index * 32 ≤ ones then ones - UInt32.ofNat index * 32 else 0)
      32).toNat = min (ones.toNat - 32 * index) 32 := by
    rw [UInt32.toNat_min]
    split
    · rename_i hle
      rw [UInt32.toNat_sub_of_le _ _ hle, hstart]
      rfl
    · rename_i hlt
      rw [UInt32.le_iff_toNat_le, hstart] at hlt
      have hnone : ones.toNat - 32 * index = 0 := by omega
      rw [hnone]
      rfl
  rw [runWord?, indexWord?, if_pos (by omega)]
  show (mul? (UInt32.ofNat index) 32 >>= fun start => _) = _
  rw [hmul]
  show topBits? _ = _
  rw [topBits?_eq (by rw [hset]; omega), hset]
  rfl

/-- One step puts the next word of the run behind those that are there. -/
theorem store?_step (front rest : List UInt32) (old word : UInt32) :
    store? (front ++ old :: rest) front.length word = some (front ++ word :: rest) := by
  rw [store?, if_pos (by simp), List.set_append_right _ _ (Nat.le_refl _), Nat.sub_self,
    List.set_cons_zero]

/-- After any number of steps the words of the run stand behind the first word, and all that is further
on is as it was. -/
theorem fillWords?_eq {ones first : UInt32} {count : Nat} {buffer : List UInt32}
    (hroom : count ≤ buffer.length) (hindex : 32 * count ≤ 2 ^ 32 + 31) :
    fillWords? ones (first :: buffer) count =
      some (first :: (List.range count).map (patternWord ones.toNat) ++ buffer.drop count) := by
  induction count with
  | zero => rfl
  | succ count ih =>
    have hword := runWord?_eq ones (by omega : 32 * count < 2 ^ 32)
    have hfront : (first :: (List.range count).map (patternWord ones.toNat)).length = 1 + count := by
      rw [List.length_cons, List.length_map, List.length_range, Nat.add_comm]
    rw [fillWords?, ih (by omega) (by omega), List.drop_eq_getElem_cons hroom]
    show (runWord? ones count >>= store? _ (1 + count)) = _
    rw [hword]
    show store? _ (1 + count) _ = _
    rw [← hfront, store?_step, List.range_succ, List.map_append, List.map_singleton]
    simp

theorem wordsFor?_eq (bits : UInt32) :
    ∃ count, wordsFor? bits = some count ∧ count.toNat = Word.countFor bits.toNat := by
  have hbits := bits.toNat_lt
  have hdiv : (bits / 32).toNat = bits.toNat / 32 := UInt32.toNat_div bits 32
  have hmod : (bits % 32).toNat = bits.toNat % 32 := UInt32.toNat_mod bits 32
  unfold wordsFor?
  split
  · rename_i hwhole
    rw [hwhole] at hmod
    have hzero : bits.toNat % 32 = 0 := hmod.symm
    refine ⟨_, rfl, ?_⟩
    rw [hdiv, Word.countFor]
    omega
  · rename_i hpart
    have hne : bits.toNat % 32 ≠ 0 := by
      rw [← hmod]
      exact fun h => hpart (UInt32.toNat_inj.mp h)
    have hsum : (bits / 32).toNat + (1 : UInt32).toNat < 2 ^ 32 := by
      rw [hdiv]
      show bits.toNat / 32 + 1 < 2 ^ 32
      omega
    refine ⟨_, add?_eq hsum, ?_⟩
    rw [toNat_add_of_lt hsum, hdiv, Word.countFor]
    show bits.toNat / 32 + 1 = _
    omega

/-- The pattern has a word for its size and those of its bits. -/
theorem writePattern?_eq (ones size : UInt32) (buffer : List UInt32) :
    writePattern? ones size buffer =
      if size < ones ∨ buffer.length < 1 + Word.countFor size.toNat then none
      else some (1 + Word.countFor size.toNat,
        size :: (List.range (Word.countFor size.toNat)).map (patternWord ones.toNat) ++
          buffer.drop (1 + Word.countFor size.toNat)) := by
  unfold writePattern? pattern?
  by_cases hroom : buffer.length < 1 + Word.countFor size.toNat
  · rw [if_pos hroom, if_pos (Or.inr hroom)]
  · by_cases hones : size < ones
    · rw [if_neg hroom, if_pos hones, if_pos (Or.inl hones)]
      rfl
    · rw [if_neg hroom, if_neg hones, if_neg (not_or.mpr ⟨hones, hroom⟩)]
      simp [Nat.add_comm]

/-- Word by word the same is written as in one piece, and no step fails. -/
theorem fill?_eq (ones size : UInt32) (buffer : List UInt32) :
    fill? ones size buffer = some (match writePattern? ones size buffer with
      | some (count, after) => (some count, after)
      | none => (none, buffer)) := by
  obtain ⟨data, hdata, hcount⟩ := wordsFor?_eq size
  have hsize := size.toNat_lt
  have hsmall : 32 * data.toNat ≤ 2 ^ 32 + 31 := by
    rw [hcount, Word.countFor]
    omega
  have hsum : (1 : UInt32).toNat + data.toNat < 2 ^ 32 := by
    show 1 + data.toNat < 2 ^ 32
    omega
  have htotal : (1 + data).toNat = 1 + data.toNat := toNat_add_of_lt hsum
  rw [writePattern?_eq, fill?, ← hcount]
  by_cases hones : size < ones
  · rw [if_pos hones, if_pos (Or.inl hones)]
    rfl
  rw [if_neg hones, hdata]
  show (add? 1 data >>= fun total => _) = _
  rw [add?_eq hsum]
  show (if buffer.length < (1 + data).toNat then _ else _) = _
  rw [htotal]
  by_cases hroom : buffer.length < 1 + data.toNat
  · rw [if_pos hroom, if_pos (Or.inr hroom)]
    rfl
  rw [if_neg hroom, if_neg (not_or.mpr ⟨hones, hroom⟩)]
  cases buffer with
  | nil => simp at hroom
  | cons old buffer =>
    have hfill := @fillWords?_eq ones size data.toNat buffer (by simp at hroom; omega) hsmall
    show (fillWords? ones (size :: buffer) data.toNat >>= fun filled => _) = _
    rw [hfill, Nat.add_comm 1, List.drop_succ_cons]
    rfl

/-- What is in a buffer after the pattern has been written: at its front the size, and the packed run
behind it, and what it had before further on. -/
structure Written (ones size : UInt32) (buffer : List UInt32) (count : Nat)
    (after : List UInt32) : Prop where
  fits : ones ≤ size
  count_eq : count = 1 + (size.toNat + 31) / 32
  room : count ≤ buffer.length
  front : after.take count =
    size :: Word.pack (Word.run ones.toNat (size.toNat - ones.toNat))
  rest : after.drop count = buffer.drop count

theorem writePattern?_eq_none_iff {ones size : UInt32} {buffer : List UInt32} :
    writePattern? ones size buffer = none ↔
      size < ones ∨ buffer.length < 1 + (size.toNat + 31) / 32 := by
  rw [writePattern?_eq]
  split
  · rename_i hrefused
    exact iff_of_true rfl hrefused
  · rename_i hwritten
    exact iff_of_false nofun hwritten

theorem writePattern?_eq_some_iff {ones size : UInt32} {buffer after : List UInt32} {count : Nat} :
    writePattern? ones size buffer = some (count, after) ↔
      Written ones size buffer count after := by
  rw [writePattern?_eq]
  split
  · rename_i hrefused
    refine iff_of_false nofun fun h => ?_
    rcases hrefused with hones | hroom
    · exact UInt32.not_le.mpr hones h.fits
    · have := h.room
      rw [h.count_eq] at this
      exact absurd hroom (Nat.not_lt.mpr this)
  · rename_i hwritten
    obtain ⟨hones, hroom⟩ := not_or.mp hwritten
    have hle : ones ≤ size := UInt32.not_lt.mp hones
    rw [← pack_run (UInt32.le_iff_toNat_le.mp hle)]
    have hlength : (size :: Word.pack (Word.run ones.toNat (size.toNat - ones.toNat))).length =
        1 + Word.countFor size.toNat := by
      rw [List.length_cons, Word.length_pack, Word.length_run,
        Nat.add_sub_of_le (UInt32.le_iff_toNat_le.mp hle), Nat.add_comm]
    constructor
    · intro h
      cases h
      exact {
        fits := hle
        count_eq := rfl
        room := Nat.not_lt.mp hroom
        front := by rw [← hlength, List.take_left]
        rest := by rw [← hlength, List.drop_left] }
    · intro h
      obtain rfl : count = 1 + Word.countFor size.toNat := h.count_eq
      rw [← h.front, ← h.rest, List.take_append_drop]

end Control

namespace ChainLayout

variable {layout : ChainLayout} {resolved : List ResolvedSegment} {image : Image}
  {ones size : UInt32} {rest : Nat}

/-- An image with a length header whose bits are a run is the words of a pattern. -/
theorem words_eq_of_run (hkind : layout.kind = .length) (hsize : layout.payloadBits = size.toNat)
    (hpack : layout.pack resolved false = .ok image)
    (hrun : (Word.unpack image.payload).take image.payloadBits = Word.run ones.toNat rest) :
    ones ≤ size ∧
      image.words = size :: Word.pack (Word.run ones.toNat (size.toNat - ones.toNat)) := by
  have hbits := payloadBits_of_pack hpack
  obtain ⟨-, rfl⟩ := pack_eq_ok_iff.mp hpack
  have hstream : chainStream layout.segments resolved = Word.run ones.toNat rest := by
    rw [← hrun]
    show _ = (Word.unpack (Word.pack (chainStream layout.segments resolved))).take
      (chainStream layout.segments resolved).length
    rw [Word.unpack_pack, List.take_left]
  have hlength : ones.toNat + rest = size.toNat := by
    rw [← Word.length_run, ← hstream, ← hsize, ← hbits]
    rfl
  have hheader : layout.header = size := by
    have hlt := size.toNat_lt
    have htotal : layout.chain.totalBits = size.toNat := hsize
    rw [header, hkind]
    show UInt32.ofNat (min layout.chain.totalBits (2 ^ 32 - 1)) = size
    rw [htotal, Nat.min_eq_left (by omega), UInt32.ofNat_toNat]
  have hrest : rest = size.toNat - ones.toNat := by omega
  refine ⟨UInt32.le_iff_toNat_le.mpr (by omega), ?_⟩
  show layout.header :: Word.pack (chainStream layout.segments resolved) = _
  rw [hheader, hstream, hrest]

end ChainLayout

namespace Control

/-- Writing the pattern refuses exactly a run that is longer than the pattern and a buffer that is too
short. Otherwise the size and the packed run go to the front of the buffer, and nothing else changes.
Done word by word in words of the machine it never fails, and a refusal leaves the buffer. An image
without a checksum that has a length header and the bits of a run is what is written for it. -/
theorem pattern_is_packed_run :
    (∀ (ones size : UInt32) (buffer : List UInt32),
      (writePattern? ones size buffer = none ↔
        size < ones ∨ buffer.length < 1 + (size.toNat + 31) / 32) ∧
      (∀ (count : Nat) (after : List UInt32), writePattern? ones size buffer = some (count, after) ↔
        Written ones size buffer count after) ∧
      fill? ones size buffer = some (match writePattern? ones size buffer with
        | some (count, after) => (some count, after)
        | none => (none, buffer))) ∧
    ∀ (layout : ChainLayout) (resolved : List ResolvedSegment) (image : Image)
      (ones size : UInt32) (rest : Nat), layout.kind = .length → layout.payloadBits = size.toNat →
      layout.pack resolved false = .ok image →
      (Word.unpack image.payload).take image.payloadBits = Word.run ones.toNat rest →
      ∀ buffer : List UInt32, image.words.length ≤ buffer.length →
        writePattern? ones size buffer =
          some (image.words.length, image.words ++ buffer.drop image.words.length) := by
  refine ⟨fun ones size buffer => ⟨writePattern?_eq_none_iff, fun _ _ => writePattern?_eq_some_iff,
    fill?_eq ones size buffer⟩, ?_⟩
  intro layout resolved image ones size rest hkind hsize hpack hrun buffer hroom
  obtain ⟨hfits, hwords⟩ := ChainLayout.words_eq_of_run hkind hsize hpack hrun
  have hcount : image.words.length = 1 + (size.toNat + 31) / 32 := by
    rw [hwords, List.length_cons, Word.length_pack, Word.length_run,
      Nat.add_sub_of_le (UInt32.le_iff_toNat_le.mp hfits), Nat.add_comm]
    rfl
  exact writePattern?_eq_some_iff.mpr {
    fits := hfits
    count_eq := hcount
    room := hroom
    front := by rw [List.take_left, hwords]
    rest := List.drop_left }

/-- A register whose forty bits are all stuck at zero is the pattern of forty set bits of eighty. -/
theorem stuck_register_is_pattern :
    let layout : ChainLayout :=
      { kind := .length
        chain :=
          { name := "main", segments := [⟨"r", 0, 80, .stuckAt 40 40 40⟩], nonempty := by decide
            positions := by decide, names_nodup := by decide, fits := by decide } }
    let resolved : List ResolvedSegment :=
      [⟨"r", 0, [⟨"mask", .ones 40⟩, ⟨"value", .zeros 40⟩]⟩]
    let image : Image :=
      { header := 80, checksum := none, payloadBits := 80, payload := [0xffffffff, 0xff000000, 0] }
    layout.payloadBits = (80 : UInt32).toNat ∧ layout.pack resolved false = .ok image ∧
      (Word.unpack image.payload).take image.payloadBits = Word.run (40 : UInt32).toNat 40 ∧
      image.words.length ≤ [7, 7, 7, 7, 7].length ∧
      writePattern? 40 80 [7, 7, 7, 7, 7] =
        some (image.words.length, image.words ++ [7, 7, 7, 7, 7].drop image.words.length) := by
  intro layout resolved image
  have hsize : layout.payloadBits = (80 : UInt32).toNat := by decide
  have hpack : layout.pack resolved false = .ok image := by decide +kernel
  have hrun : (Word.unpack image.payload).take image.payloadBits =
      Word.run (40 : UInt32).toNat 40 := by decide +kernel
  exact ⟨hsize, hpack, hrun, by decide,
    pattern_is_packed_run.2 layout resolved image 40 80 40 rfl hsize hpack hrun _ (by decide)⟩

end Control

end ScanChain
