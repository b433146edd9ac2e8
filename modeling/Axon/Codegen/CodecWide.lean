import Axon.Codegen.CodecLayout
import Mathlib.Tactic.IntervalCases

/-!
# What becomes of 64-bit fields

`UNPACK_INT64` puts a value together from two halves of four signed `char`s each, in `int`
arithmetic, and or-s the second half in where the first one is.

* **`wideWord`** : what four bytes contribute.  A byte from 128 on fills everything above it.
* **`WideSafe`** : the values that survive: the ones whose upper four bytes are zero and whose lower
  four are below 128, and the one with all bits set.
* **`decode64_leBytes_iff`** : there are no others.
-/

namespace Axon

open Library

namespace Codegen

/-! ## Four bytes -/

/-- Four bytes as the two `int` expressions of `UNPACK_INT64` leave them in a 64-bit member. -/
def wideWord (a b c d : UInt8) : BitVec 64 :=
  (charToInt a ||| charToInt b <<< 8).signExtend 64 |||
    (charToInt c <<< 16 ||| charToInt d <<< 24).signExtend 64

/-- A 64-bit member holds every 64-bit value. -/
lemma convert_toNat (x : BitVec 64) : FieldType.uint64.convert x.toNat = x.toNat := by
  have := x.isLt
  rw [FieldType.convert]
  omega

lemma orInt_toNat (x : BitVec 64) (e : BitVec 32) :
    orInt x.toNat e = (x ||| e.signExtend 64).toNat := by
  rw [orInt, BitVec.ofInt_natCast, BitVec.ofNat_toNat, BitVec.setWidth_eq]

/-- An `int` assigned to a 64-bit member: its sign is extended. -/
lemma convert_toInt (e : BitVec 32) :
    FieldType.uint64.convert e.toInt = (e.signExtend 64).toNat := by
  rw [FieldType.convert, ← BitVec.toInt_signExtend_of_le (x := e) (v := 64) (by decide),
    BitVec.toInt_eq_toNat_cond]
  have := (e.signExtend 64).isLt
  split_ifs <;> omega

lemma decode64_eq (m : ℕ → UInt8) (p : ℕ) :
    decode64 m p = (wideWord (m p) (m (p + 1)) (m (p + 2)) (m (p + 3)) |||
      wideWord (m (p + 4)) (m (p + 5)) (m (p + 6)) (m (p + 7))).toNat := by
  rw [decode64, convert_toInt, orInt_toNat, convert_toNat, orInt_toNat, convert_toNat, orInt_toNat,
    convert_toNat, BitVec.or_assoc]
  rfl

lemma msb_byte (x : UInt8) : x.toBitVec.msb = decide (128 ≤ x.toNat) := by
  rw [BitVec.msb_eq_decide]
  rfl

/-- A `char` from its bits: the sign is repeated from bit 8 on. -/
lemma getLsbD_charToInt (x : UInt8) {i : ℕ} (hi : 8 ≤ i) (hi' : i < 32) :
    (charToInt x).getLsbD i = decide (128 ≤ x.toNat) := by
  rw [charToInt, BitVec.getLsbD_signExtend, if_neg (by omega), msb_byte]
  simp [hi']

/-- The sign of a byte from 128 on reaches every bit of the upper half. -/
lemma getLsbD_wideWord (a b c d : UInt8) {i : ℕ} (hi : 32 ≤ i) (hi' : i < 64) :
    (wideWord a b c d).getLsbD i = (decide (128 ≤ a.toNat) || decide (128 ≤ b.toNat) ||
      (decide (128 ≤ c.toNat) || decide (128 ≤ d.toNat))) := by
  have hd : (charToInt d).getLsbD 7 = decide (128 ≤ d.toNat) := by
    rw [charToInt, BitVec.getLsbD_signExtend, if_pos (by decide), ← msb_byte,
      BitVec.msb_eq_getLsbD_last]
    rfl
  rw [wideWord, BitVec.getLsbD_or, BitVec.getLsbD_signExtend, BitVec.getLsbD_signExtend,
    if_neg (by omega), if_neg (by omega), BitVec.msb_eq_getLsbD_last, BitVec.msb_eq_getLsbD_last]
  simp only [BitVec.getLsbD_or, BitVec.getLsbD_shiftLeft, hi', decide_true, Bool.true_and]
  rw [getLsbD_charToInt a (by decide) (by decide), getLsbD_charToInt b (by decide) (by decide),
    getLsbD_charToInt c (by decide) (by decide), hd]
  rfl

/-- A `char` below 128 is not negative. -/
lemma toNat_charToInt (x : UInt8) (hx : x.toNat < 128) : (charToInt x).toNat = x.toNat := by
  rw [charToInt, BitVec.signExtend_eq_setWidth_of_msb_false, BitVec.toNat_setWidth]
  · exact Nat.mod_eq_of_lt (by omega)
  · rw [msb_byte]
    simpa using hx

/-- Two of them. -/
lemma toNat_lowChars {a b : UInt8} (ha : a.toNat < 128) (hb : b.toNat < 128) :
    (charToInt a ||| charToInt b <<< 8).toNat = a.toNat + 256 * b.toNat := by
  rw [BitVec.toNat_or, BitVec.toNat_shiftLeft, toNat_charToInt a ha, toNat_charToInt b hb,
    Nat.or_comm, Nat.mod_eq_of_lt (by rw [Nat.shiftLeft_eq]; omega),
    ← Nat.shiftLeft_add_eq_or_of_lt (by omega), Nat.shiftLeft_eq]
  omega

/-- Bytes below 128 are put together as they should be. -/
lemma toNat_wideWord {a b c d : UInt8} (ha : a.toNat < 128) (hb : b.toNat < 128)
    (hc : c.toNat < 128) (hd : d.toNat < 128) :
    (wideWord a b c d).toNat =
      a.toNat + 256 * b.toNat + 256 ^ 2 * c.toNat + 256 ^ 3 * d.toNat := by
  have hlow := toNat_lowChars ha hb
  have hhigh : (charToInt c <<< 16 ||| charToInt d <<< 24).toNat =
      (c.toNat + 256 * d.toNat) <<< 16 := by
    rw [BitVec.toNat_or, BitVec.toNat_shiftLeft, BitVec.toNat_shiftLeft, toNat_charToInt c hc,
      toNat_charToInt d hd, Nat.or_comm, Nat.mod_eq_of_lt (by rw [Nat.shiftLeft_eq]; omega),
      Nat.mod_eq_of_lt (by rw [Nat.shiftLeft_eq]; omega),
      ← Nat.shiftLeft_add_eq_or_of_lt (by rw [Nat.shiftLeft_eq]; omega), Nat.shiftLeft_eq,
      Nat.shiftLeft_eq, Nat.shiftLeft_eq]
    omega
  have hext : ∀ e : BitVec 32, e.toNat < 2 ^ 31 → (e.signExtend 64).toNat = e.toNat := by
    intro e he
    rw [BitVec.signExtend_eq_setWidth_of_msb_false, BitVec.toNat_setWidth]
    · exact Nat.mod_eq_of_lt (by omega)
    · rw [BitVec.msb_eq_decide]
      simpa using he
  rw [wideWord, BitVec.toNat_or, hext _ (by rw [hlow]; omega),
    hext _ (by rw [hhigh, Nat.shiftLeft_eq]; omega), hlow, hhigh, Nat.or_comm,
    ← Nat.shiftLeft_add_eq_or_of_lt (by omega), Nat.shiftLeft_eq]
  omega

/-! ## Eight bytes -/

/-- **The 64-bit values that survive**: four bytes below 128 with nothing above them, or all bits
set. -/
def WideSafe (v : ℤ) : Prop :=
  v = 2 ^ 64 - 1 ∨ (v < 2 ^ 32 ∧ ∀ i < 4, v / 256 ^ i % 256 < 128)

instance (v : ℤ) : Decidable (WideSafe v) :=
  inferInstanceAs (Decidable (v = 2 ^ 64 - 1 ∨ (v < 2 ^ 32 ∧ ∀ i < 4, v / 256 ^ i % 256 < 128)))

/-- The bytes of a 64-bit value. -/
lemma toNat_byteAt (v : ℤ) {i : ℕ} (hi : i < 8) :
    ((byteAt (leBytes 8 v) i).toNat : ℤ) = v / 256 ^ i % 256 := by
  rw [byteAt, getD_leBytes hi, toNat_ofInt]

/-- A 64-bit value whose upper half is all ones. -/
lemma le_toNat_of_ones {x : BitVec 64} (h : ∀ i, 32 ≤ i → i < 64 → x.getLsbD i = true) :
    2 ^ 64 - 2 ^ 32 ≤ x.toNat := by
  have hones : x.extractLsb' 32 32 = BitVec.allOnes 32 := by
    apply BitVec.eq_of_getLsbD_eq
    intro i hi
    rw [BitVec.getLsbD_extractLsb', h (32 + i) (by omega) (by omega), BitVec.getLsbD_allOnes]
    simp
  have hnat := congrArg BitVec.toNat hones
  rw [BitVec.extractLsb'_toNat, BitVec.toNat_allOnes, Nat.shiftRight_eq_div_pow] at hnat
  have := x.isLt
  omega

section Bytes

variable {b : ℕ → UInt8}

/-- One byte from 128 on sets the whole upper half. -/
lemma le_toNat_of_big (hbig : ∃ i < 8, 128 ≤ (b i).toNat) :
    2 ^ 64 - 2 ^ 32 ≤ (wideWord (b 0) (b 1) (b 2) (b 3) ||| wideWord (b 4) (b 5) (b 6) (b 7)).toNat
    := by
  refine le_toNat_of_ones fun i hi hi' => ?_
  rw [BitVec.getLsbD_or, getLsbD_wideWord _ _ _ _ hi hi', getLsbD_wideWord _ _ _ _ hi hi']
  obtain ⟨j, hj, hbig⟩ := hbig
  interval_cases j <;> simp [hbig]

/-- Bytes below 128 stay within the lower half. -/
lemma toNat_lt_of_small (hsmall : ∀ i < 8, (b i).toNat < 128) :
    (wideWord (b 0) (b 1) (b 2) (b 3) ||| wideWord (b 4) (b 5) (b 6) (b 7)).toNat < 2 ^ 32 := by
  have h := hsmall
  rw [BitVec.toNat_or]
  refine Nat.or_lt_two_pow ?_ ?_
  · rw [toNat_wideWord (h 0 (by decide)) (h 1 (by decide)) (h 2 (by decide)) (h 3 (by decide))]
    have := h 0 (by decide)
    have := h 1 (by decide)
    have := h 2 (by decide)
    have := h 3 (by decide)
    omega
  · rw [toNat_wideWord (h 4 (by decide)) (h 5 (by decide)) (h 6 (by decide)) (h 7 (by decide))]
    have := h 4 (by decide)
    have := h 5 (by decide)
    have := h 6 (by decide)
    have := h 7 (by decide)
    omega

end Bytes

/-- The value with all bits set is read back. -/
lemma decode64_ones : decodeField .uint64 (byteAt (leBytes 8 (2 ^ 64 - 1))) 0 = 2 ^ 64 - 1 := by
  decide

/-- A value of four bytes below 128 is read back. -/
lemma decode64_small {v : ℤ} (h0 : 0 ≤ v) (hlt : v < 2 ^ 32)
    (hsmall : ∀ i < 4, v / 256 ^ i % 256 < 128) :
    decodeField .uint64 (byteAt (leBytes 8 v)) 0 = v := by
  have hbyte := fun i (hi : i < 8) => toNat_byteAt v hi
  rw [decodeField, decode64_eq]
  simp only [Nat.zero_add]
  generalize byteAt (leBytes 8 v) = b at hbyte
  have hlow : ∀ i < 4, (b i).toNat < 128 := by
    intro i hi
    have := hbyte i (by omega)
    have := hsmall i hi
    omega
  have hhigh : ∀ i, 4 ≤ i → i < 8 → b i = 0 := by
    intro i hi hi'
    have h := hbyte i hi'
    have hzero : v / 256 ^ i = 0 := by
      refine Int.ediv_eq_zero_of_lt h0 (lt_of_lt_of_le hlt ?_)
      exact_mod_cast Nat.pow_le_pow_right (show 0 < 256 by decide) hi
    rw [hzero] at h
    exact UInt8.toNat_inj.mp (by simpa using h)
  rw [hhigh 4 (by decide) (by decide), hhigh 5 (by decide) (by decide),
    hhigh 6 (by decide) (by decide), hhigh 7 (by decide) (by decide),
    show wideWord 0 0 0 0 = 0#64 by decide, BitVec.or_zero,
    toNat_wideWord (hlow 0 (by decide)) (hlow 1 (by decide)) (hlow 2 (by decide))
      (hlow 3 (by decide))]
  have e0 := hbyte 0 (by decide)
  have e1 := hbyte 1 (by decide)
  have e2 := hbyte 2 (by decide)
  have e3 := hbyte 3 (by decide)
  push_cast
  omega

/-- **Which 64-bit values are read back as packed.** -/
lemma decode64_leBytes_iff {v : ℤ} (hv : FieldType.uint64.InRange v) :
    decodeField .uint64 (byteAt (leBytes 8 v)) 0 = v ↔ WideSafe v := by
  have hrange : 0 ≤ v ∧ v < 2 ^ 64 := by
    rw [FieldType.InRange, FieldType.convert] at hv
    omega
  constructor
  · intro h
    have hbyte := fun i (hi : i < 8) => toNat_byteAt v hi
    rw [decodeField, decode64_eq] at h
    simp only [Nat.zero_add] at h
    generalize byteAt (leBytes 8 v) = b at hbyte h
    by_cases hbig : ∃ i < 8, 128 ≤ (b i).toNat
    · -- then the upper four bytes are all ones, and or-ed in they set every bit
      left
      have hge := le_toNat_of_big hbig
      have hones : ∀ i, 4 ≤ i → i < 8 → b i = 255 := by
        intro i hi hi'
        have := hbyte i hi'
        refine UInt8.toNat_inj.mp ?_
        show (b i).toNat = 255
        interval_cases i <;> omega
      rw [hones 4 (by decide) (by decide), hones 5 (by decide) (by decide),
        hones 6 (by decide) (by decide), hones 7 (by decide) (by decide),
        show wideWord 255 255 255 255 = BitVec.allOnes 64 by decide, BitVec.or_allOnes,
        BitVec.toNat_allOnes] at h
      exact h.symm
    · right
      have hsmall : ∀ i < 8, (b i).toNat < 128 := fun i hi =>
        Nat.lt_of_not_le fun hle => hbig ⟨i, hi, hle⟩
      have hlt := toNat_lt_of_small hsmall
      refine ⟨by omega, fun i hi => ?_⟩
      have := hbyte i (by omega)
      have := hsmall i (by omega)
      omega
  · rintro (rfl | ⟨hlt, hsmall⟩)
    · exact decode64_ones
    · exact decode64_small hrange.1 hlt hsmall

section Messages

variable {ν : Type} [DecidableEq ν] [Named ν] {body : Body ν}

/-- The 64-bit fields of a message come back: whenever both functions get past their check of the
room, `unpack` of what `pack` has stored restores them. -/
def WideRestored (r : Record body) : Prop :=
  ∀ (member₀ : ν → ℤ) (mem : ℕ → UInt8) (p avail avail' : ℕ),
    u32 (genCppBody body).fixedLen ≤ avail → u32 (genCppBody body).fixedLen ≤ avail' →
    ∀ f ∈ body.fields, f.type = .uint64 →
      (unpack body member₀ (pack body r.member mem (some p) avail).1 (some p) avail').1 f.name =
        r.member f.name

lemma wideRestored_iff (hclear : body.Clear) (r : Record body) :
    WideRestored r ↔ ∀ f ∈ body.fields, f.type = .uint64 → WideSafe (r.member f.name) := by
  have hfield : ∀ f ∈ body.fields, f.type = .uint64 →
      (decodeField f.type (byteAt (leBytes (fieldLen f.type) (r.member f.name))) 0
        = r.member f.name ↔ WideSafe (r.member f.name)) := by
    intro f hf htype
    have htyped := r.typed f hf
    rw [htype] at htyped ⊢
    exact decode64_leBytes_iff htyped
  constructor
  · intro h f hf htype
    have hback := h r.member (fun _ => 0) 0 _ _ (Nat.le_refl _) (Nat.le_refl _) f hf htype
    rw [unpack_pack hclear r.member _ 0 (Nat.le_refl _) r.member (Nat.le_refl _) hf] at hback
    exact (hfield f hf htype).mp hback
  · intro h member₀ mem p avail avail' hroom hroom' f hf htype
    rw [unpack_pack hclear r.member mem p hroom member₀ hroom' hf]
    exact (hfield f hf htype).mpr (h f hf htype)

end Messages

end Codegen

end Axon
