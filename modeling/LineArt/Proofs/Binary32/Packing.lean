import Mathlib

/-!
# Binary32: packing

A float is stored as a sign, an exponent and a mantissa.  Every operation unpacks
its operands, computes on the unpacked numbers and stores the result.  Storing
commutes with negation, whatever is stored, and changes nothing that was stored
before.
-/

namespace LineArt.Binary32

open Float.Model (Format UnpackedFloat)
open Float.Model.UnpackedFloat (Sign packComponents unpackSign unpackExponent unpackMantissa
  unpackExponent_packComponents unpackMantissa_packComponents)

/-! ### The three components -/

section Components

variable (S : Format) (s : Sign) (e : BitVec S.exponentBits)
  (m : BitVec S.mantissaBitsWithoutImplicit)

theorem ofBitVec_toBitVec : Sign.ofBitVec s.toBitVec = s := by
  cases s <;> rfl

theorem toBitVec_ofBitVec (v : BitVec 1) : (Sign.ofBitVec v).toBitVec = v := by
  revert v
  decide

theorem unpackSign_packComponents : unpackSign (packComponents S s e m) = s.toBitVec := by
  ext i hi
  have hzero : i = 0 := by omega
  simp [hzero, unpackSign, packComponents, BitVec.getElem_append, BitVec.getLsbD_append]

theorem packComponents_unpack (b : BitVec S.numBits) :
    packComponents S (Sign.ofBitVec (unpackSign b)) (unpackExponent b) (unpackMantissa b) = b := by
  have hm := S.hm
  have he := S.he
  have hn : S.numBits = 1 + S.exponentBits + S.mantissaBitsWithoutImplicit := rfl
  apply BitVec.eq_of_getLsbD_eq
  intro i hi
  simp only [packComponents, toBitVec_ofBitVec, BitVec.getLsbD_append, unpackSign, unpackExponent,
    unpackMantissa, BitVec.getLsbD_cast, BitVec.getLsbD_extractLsb]
  split
  · have hi' : i < S.mantissaBitsWithoutImplicit - 1 + 1 := by omega
    simp [hi']
  · split
    · have hi' : i - S.mantissaBitsWithoutImplicit
          < S.mantissaBitsWithoutImplicit + S.exponentBits - 1
            - S.mantissaBitsWithoutImplicit + 1 := by omega
      have hsum : S.mantissaBitsWithoutImplicit + (i - S.mantissaBitsWithoutImplicit) = i := by
        omega
      simp [hi', hsum]
    · have hi' : i - S.mantissaBitsWithoutImplicit - S.exponentBits = 0 := by omega
      have hsum : S.mantissaBitsWithoutImplicit + S.exponentBits = i := by omega
      simp [hi', hsum]

/-- The number with the given stored components. -/
def ofComponents : UnpackedFloat := UnpackedFloat.unpack S (packComponents S s e m)

theorem ofComponents_neg : ofComponents S (-s) e m = (ofComponents S s e m).neg := by
  simp only [ofComponents, UnpackedFloat.unpack, unpackSign_packComponents,
    unpackExponent_packComponents, unpackMantissa_packComponents, ofBitVec_toBitVec]
  by_cases hones : e = -1#_
  · by_cases hzero : m = 0#_
    · simp only [hones, hzero, if_true, UnpackedFloat.neg]
    · simp only [hones, hzero, if_true, if_false, UnpackedFloat.neg]
  · by_cases hsub : e = 0#_
    · by_cases hzero : m = 0#_
      · simp only [if_neg hones, if_pos hsub, dif_pos hzero, UnpackedFloat.neg]
      · simp only [if_neg hones, if_pos hsub, dif_neg hzero, UnpackedFloat.neg]
    · simp only [if_neg hones, if_neg hsub, UnpackedFloat.neg]

end Components

/-- What is read back of a number after it was stored. -/
def stored (u : UnpackedFloat) : UnpackedFloat :=
  UnpackedFloat.unpack Format.binary32 (UnpackedFloat.pack Format.binary32 u)

theorem stored_notANumber : stored .notANumber = .notANumber := by
  rfl

theorem stored_zero (s : Sign) : stored (.zero s) = .zero s := by
  cases s <;> rfl

theorem neg_neg (u : UnpackedFloat) : u.neg.neg = u := by
  rcases u with s | _ | s | ⟨s, m, e, hm⟩
  · cases s <;> rfl
  · rfl
  · cases s <;> rfl
  · cases s <;> rfl

/-- Negation flips the sign that is stored and nothing else. -/
theorem pack_neg_components (u : UnpackedFloat) (h : u ≠ .notANumber) :
    ∃ s e m, UnpackedFloat.pack Format.binary32 u = packComponents Format.binary32 s e m ∧
      UnpackedFloat.pack Format.binary32 u.neg = packComponents Format.binary32 (-s) e m := by
  cases u with
  | infinity s => exact ⟨s, _, _, rfl, rfl⟩
  | notANumber => contradiction
  | zero s => exact ⟨s, _, _, rfl, rfl⟩
  | finite s m e hm =>
    simp only [UnpackedFloat.neg, UnpackedFloat.pack]
    split
    · exact ⟨s, _, _, rfl, rfl⟩
    · split
      · exact ⟨s, _, _, rfl, rfl⟩
      · exact ⟨s, _, _, rfl, rfl⟩

theorem stored_neg (u : UnpackedFloat) : stored u.neg = (stored u).neg := by
  by_cases h : u = .notANumber
  · subst h
    exact stored_notANumber.trans (congrArg UnpackedFloat.neg stored_notANumber).symm
  · obtain ⟨s, e, m, hp, hn⟩ := pack_neg_components u h
    simp only [stored, hp, hn]
    exact ofComponents_neg Format.binary32 s e m

/-! ### Stored words -/

theorem toNat_implicit {w : Nat} (m : BitVec w) : (1#1 ++ m).toNat = 2 ^ w + m.toNat := by
  have hm := m.isLt
  have hone : (1#1).toNat = 1 := rfl
  rw [BitVec.toNat_append, hone, Nat.shiftLeft_eq, Nat.mul_comm,
    ← Nat.two_pow_add_eq_or_of_lt hm, Nat.mul_one]

theorem log2_implicit {w : Nat} (m : BitVec w) : (1#1 ++ m).toNat.log2 = w := by
  have hm := m.isLt
  have hpow : 2 ^ (w + 1) = 2 ^ w + 2 ^ w := by omega
  have hne : 2 ^ w + m.toNat ≠ 0 := by
    have hpos := Nat.two_pow_pos w
    omega
  have hlo : w ≤ (2 ^ w + m.toNat).log2 := (Nat.le_log2 hne).2 (Nat.le_add_right _ _)
  have hhi : (2 ^ w + m.toNat).log2 < w + 1 := (Nat.log2_lt hne).2 (by omega)
  rw [toNat_implicit]
  omega

theorem pack_normal (s : Sign) (e : BitVec 8) (m : BitVec 23) (hm : 0 < (1#1 ++ m).toNat)
    (hones : e ≠ -1#8) :
    UnpackedFloat.pack Format.binary32 (.finite s (1#1 ++ m).toNat ((e.toNat : Int) - 150) hm)
      = packComponents Format.binary32 s e m := by
  have he := e.isLt
  have hm' := m.isLt
  have hne : e.toNat ≠ 255 := fun h => hones (BitVec.eq_of_toNat_eq h)
  have hbias : (e.toNat - 150 + (Format.binary32.exponentBias : Int) + (23 : Nat)).toNat = e.toNat := by
    have : (Format.binary32.exponentBias : Int) = 127 := rfl
    omega
  have hlog : (1#1 ++ m).toNat.log2 + 1 = Format.binary32.mantissaBits := by
    rw [log2_implicit]
    rfl
  have hmant : BitVec.ofNat 23 (1#1 ++ m).toNat = m := by
    apply BitVec.eq_of_toNat_eq
    rw [toNat_implicit, BitVec.toNat_ofNat]
    omega
  simp only [UnpackedFloat.pack, hbias]
  rw [if_neg (by omega), if_pos hlog, hmant, BitVec.ofNat_toNat, BitVec.setWidth_eq]

theorem pack_subnormal (s : Sign) (m : BitVec 23) (hm : 0 < m.toNat) :
    UnpackedFloat.pack Format.binary32 (.finite s m.toNat (-149) hm)
      = packComponents Format.binary32 s 0#8 m := by
  have hm' := m.isLt
  have hlog : ¬ m.toNat.log2 + 1 = Format.binary32.mantissaBits := by
    have hlt : m.toNat.log2 < 23 := (Nat.log2_lt (by omega)).2 hm'
    have hbits : Format.binary32.mantissaBits = 24 := rfl
    omega
  have hbias : ((-149 : Int) + (Format.binary32.exponentBias : Int) + (23 : Nat)).toNat = 1 := rfl
  simp only [UnpackedFloat.pack, hbias]
  rw [if_neg (by decide), if_neg hlog, BitVec.ofNat_toNat, BitVec.setWidth_eq]

theorem pack_unpack (b : BitVec 32) (hvalid : Format.binary32.Valid b) :
    UnpackedFloat.pack Format.binary32 (UnpackedFloat.unpack Format.binary32 b) = b := by
  have hb := packComponents_unpack Format.binary32 b
  generalize hs : Sign.ofBitVec (@unpackSign Format.binary32 b) = s at hb
  generalize he : @unpackExponent Format.binary32 b = e at hb
  generalize hm : @unpackMantissa Format.binary32 b = m at hb
  simp only [UnpackedFloat.unpack, hs, he, hm]
  by_cases hones : e = -1#8
  · by_cases hzero : m = 0#23
    · rw [if_pos hones, if_pos hzero, ← hb, hones, hzero]
      rfl
    · rw [if_pos hones, if_neg hzero]
      exact (hvalid.eq_packedNaN (he.trans hones) (hm ▸ hzero)).symm
  · by_cases hsub : e = 0#8
    · by_cases hzero : m = 0#23
      · rw [if_neg hones, if_pos hsub, dif_pos hzero, ← hb, hsub, hzero]
        rfl
      · rw [if_neg hones, if_pos hsub, dif_neg hzero]
        subst hsub
        exact (pack_subnormal s m _).trans hb
    · rw [if_neg hones, if_neg hsub]
      exact (pack_normal s e m _ hones).trans hb

/-! ### Floats -/

/-- A float as the number it stands for. -/
def view (x : Float32) : UnpackedFloat := x.toModel.unpack

theorem stored_view (x : Float32) : stored (view x) = view x :=
  congrArg (UnpackedFloat.unpack Format.binary32) (pack_unpack _ x.toModel.valid)

theorem view_add (x y : Float32) :
    view (x + y) = stored (UnpackedFloat.add Format.binary32 (view x) (view y)) := rfl

theorem view_mul (x y : Float32) :
    view (x * y) = stored (UnpackedFloat.mul Format.binary32 (view x) (view y)) := rfl

theorem view_neg (x : Float32) : view (-x) = (view x).neg := by
  have h : view (-x) = stored (view x).neg := rfl
  rw [h, stored_neg, stored_view]

theorem isNaN_eq (x : Float32) : x.isNaN = (view x).isNaN := rfl

theorem beq_eq (x y : Float32) : (x == y) = (view x).beq (view y) := rfl

theorem lt_iff (x y : Float32) : x < y ↔ (view x).lt (view y) = true := by
  have h : (x < y) = (decide ((view x).lt (view y) = true) = true) := rfl
  rw [h, decide_eq_true_iff]

theorem le_iff (x y : Float32) : x ≤ y ↔ (view x).le (view y) = true := by
  have h : (x ≤ y) = (decide ((view x).le (view y) = true) = true) := rfl
  rw [h, decide_eq_true_iff]

end LineArt.Binary32
