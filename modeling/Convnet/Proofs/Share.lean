import Convnet.Proofs.Rounding

namespace Convnet.Rounding

open Float.Model UnpackedFloat

def Below (u v : UnpackedFloat) : Prop :=
  ∃ m e h n f h', u = .finite .positive m e h ∧ v = .finite .positive n f h' ∧ (e < f ∨ e = f ∧ m ≤ n)

theorem Carries.below {r r' : Nat} {t t' : Int} {u v : UnpackedFloat} (h : Carries r t u)
    (h' : Carries r' t' v) (hr' : 2 ^ 52 ≤ r') (hle : t < t' ∨ t = t' ∧ r ≤ r') : Below u v := by
  obtain ⟨m, e, hm, rfl, ⟨hr, rfl, rfl⟩ | ⟨rfl, rfl, rfl⟩⟩ := h <;>
    obtain ⟨n, f, hn, rfl, ⟨hr₁, rfl, rfl⟩ | ⟨rfl, rfl, rfl⟩⟩ := h' <;>
    exact ⟨_, _, hm, _, _, hn, rfl, rfl, by omega⟩

theorem below_ofNat {a b : Nat} (ha : 0 < a) (hab : a ≤ b) (hb : b < 2 ^ 64) :
    Below (Float.ofNat a).toModel.unpack (Float.ofNat b).toModel.unpack := by
  rcases Nat.lt_or_eq_of_le hab with hlt | rfl
  · obtain ⟨r, -, -, hnear, hc⟩ := counts_ofNat ha (Nat.lt_trans hlt hb)
    obtain ⟨r', hr', -, hnear', hc'⟩ := counts_ofNat (Nat.lt_trans ha hlt) hb
    have hlog : a.log2 ≤ b.log2 := (Nat.le_log2 (by omega)).mpr
      (Nat.le_trans (Nat.log2_self_le (by omega)) hab)
    refine hc.below hc' hr' ?_
    rcases Nat.lt_or_eq_of_le hlog with hl | hl
    · exact .inl (by omega)
    · rw [hl] at hnear
      exact .inr ⟨by rw [hl], hnear.mono hnear' (Nat.mul_lt_mul_of_pos_right hlt (by decide))⟩
  · obtain ⟨m, e, hm, hu, -⟩ := between_ofNat ha hb
    rw [hu]
    exact ⟨m, e, hm, m, e, hm, rfl, rfl, .inr ⟨rfl, Nat.le_refl m⟩⟩

theorem div_below {a b c d : Int} {u v : UnpackedFloat} (hu : Full a b u) (hv : Full c d v)
    (hlo : -900 ≤ a - d) (h : Below u v) :
    Below (UnpackedFloat.div Format.binary64 u v) (1.0 : Float).toModel.unpack := by
  obtain ⟨m, e, hm, rfl, hml, hmu, hea, heb⟩ := hu
  obtain ⟨n, f, hn, rfl, hnl, hnu, hfc, hfd⟩ := hv
  obtain ⟨_, _, _, _, _, _, ⟨⟩, ⟨⟩, hle⟩ := h
  have hone : Carries (2 ^ 52) (-52) (1.0 : Float).toModel.unpack :=
    ⟨2 ^ 52, -52, by decide, by rfl, .inl ⟨by decide, rfl, rfl⟩⟩
  show Below (roundWithAccuracy Format.binary64 .positive (divCore Format.binary64 m e n f).1
    (divCore Format.binary64 m e n f).2.1 (divCore Format.binary64 m e n f).2.2) _
  rw [divCore_eq hml hmu hnl hnu (by omega)]
  dsimp only
  have hl : 2 ^ 52 ≤ m * 2 ^ 53 / n := by
    rw [Nat.le_div_iff_mul_le hn]
    omega
  have hh : m * 2 ^ 53 / n < 2 ^ 54 := by
    rw [Nat.div_lt_iff_lt_mul hn]
    omega
  -- The quotient has 53 or 54 digits, and 54 of them only where the exponents differ or it is one.
  rcases Nat.lt_or_ge (m * 2 ^ 53 / n) (2 ^ 53) with hq | hq
  · obtain ⟨r, -, -, -, hc⟩ := round_carries 0 hl hq (e := e - f - 53) (by omega)
      (accuracyOfFraction (m * 2 ^ 53 % n) n)
    exact hc.below hone (Nat.le_refl _) (.inl (by omega))
  · obtain ⟨r, hr, -, -, hc⟩ := round_carries 1 hq hh (e := e - f - 53) (by omega)
      (accuracyOfFraction (m * 2 ^ 53 % n) n)
    refine hc.below hone (Nat.le_refl _) ?_
    rcases hle with hlt | ⟨rfl, hmn⟩
    · exact .inl (by omega)
    · rw [ge_iff_le, Nat.le_div_iff_mul_le hn] at hq
      obtain rfl : m = n := by omega
      have hexact : accuracyOfFraction 0 m = .exact := if_pos rfl
      rw [Nat.mul_comm m, Nat.mul_div_cancel _ hm, Nat.mul_mod_left, hexact] at hr
      exact .inr ⟨by omega, Nat.le_of_eq hr⟩

theorem le_of_below {x y : Float} (h : Below x.toModel.unpack y.toModel.unpack) : x ≤ y := by
  obtain ⟨m, e, hm, n, f, hn, hx, hy, hle⟩ := h
  have hcompare : ((compare e f).then (compare m n)).isLE = true := by
    rcases hle with hlt | ⟨rfl, hle⟩
    · simp [Int.compare_eq_lt.mpr hlt]
    · rw [Int.compare_eq_eq.mpr rfl, Ordering.eq_then]
      exact Nat.isLE_compare.mpr hle
  have hmodel : x.toModel.unpack.le y.toModel.unpack = true := by
    rw [hx, hy]
    simpa [UnpackedFloat.le, UnpackedFloat.compare] using hcompare
  exact decide_eq_true hmodel

theorem zero_le_of_between {a b : Int} {x : Float} (h : Between a b x) : 0.0 ≤ x := by
  obtain ⟨m, e, hm, hu, -⟩ := h
  have hz : (0.0 : Float).toModel.unpack = .zero .positive := by rfl
  have hmodel : (0.0 : Float).toModel.unpack.le x.toModel.unpack = true := by
    rw [hu, hz]
    rfl
  exact decide_eq_true hmodel

/-- The unit interval, with both its ends. -/
def IsShare (x : Float) : Prop := 0.0 ≤ x ∧ x ≤ 1.0

theorem share_ofNat {a b : Nat} (hab : a ≤ b) (hb : 0 < b) (hlt : b < 2 ^ 64) :
    IsShare (Float.ofNat a / Float.ofNat b) := by
  have hy := between_ofNat hb hlt
  rcases Nat.eq_zero_or_pos a with rfl | ha
  · obtain ⟨n, f, hn, hv, -⟩ := hy
    have hzero : (Float.ofNat 0).toModel.unpack = .zero .positive := by rfl
    have hquot : (Float.ofNat 0 / Float.ofNat b) = 0.0 := by
      change Float.ofModel (.pack (UnpackedFloat.div Format.binary64 (Float.ofNat 0).toModel.unpack
        (Float.ofNat b).toModel.unpack)) = _
      rw [hzero, hv]
      rfl
    rw [hquot]
    exact ⟨by decide +kernel, by decide +kernel⟩
  · have hx := between_ofNat ha (Nat.lt_of_le_of_lt hab hlt)
    have hdiv := div_full hx hy (by omega)
    have hunpack : (Float.ofNat a / Float.ofNat b).toModel.unpack =
        UnpackedFloat.div Format.binary64 (Float.ofNat a).toModel.unpack (Float.ofNat b).toModel.unpack :=
      unpack_pack hdiv (by omega) (by omega)
    have hone := div_below hx hy (by omega) (below_ofNat ha hab hlt)
    rw [← hunpack] at hone
    exact ⟨zero_le_of_between (between_div hx hy (by omega) (by omega)), le_of_below hone⟩

end Convnet.Rounding
