import PulseSequencer.Binary64.Basic
import PulseSequencer.Proofs.Binary64.Rounding

/-!
Doubles on the line of units.

`position` puts every double but NaN on the integer line: a finite one at its units, an infinity
at the bound beyond all finite ones.  Comparisons are comparisons of positions (`lt_iff`, `le_iff`,
`equal_iff`), and a rounded result lies where its exact units round to (`position_ofUnits`), so
that a quotient by a positive double grows with its dividend (`div_le_div`) and a sum does not fall
below one summand if the other is not negative (`le_add`).
-/

namespace PulseSequencer
namespace Binary64

theorem unitsPerOne_pos : 0 < unitsPerOne := by decide +kernel

theorem unitsBound_pos : 0 < unitsBound := by decide +kernel

@[simp] theorem min_zero_unitsBound : min (0 : Int) unitsBound = 0 := by
  omega

/-- Where a number lies, counted in units; the infinities lie just beyond the finite numbers. -/
def position : Binary64 → Int
  | .nan => 0
  | .infinite s => if s then -unitsBound else unitsBound
  | a@(.finite ..) => a.signedUnits

theorem signedUnits_lt (a : Binary64) : a.signedUnits < unitsBound := by
  have := unitsBound_pos
  cases a with
  | nan | infinite s => simp only [signedUnits]; omega
  | finite s units below fits => cases s <;> simp only [signedUnits] <;> omega

theorem neg_lt_signedUnits (a : Binary64) : -(unitsBound : Int) < a.signedUnits := by
  have := unitsBound_pos
  cases a with
  | nan | infinite s => simp only [signedUnits]; omega
  | finite s units below fits => cases s <;> simp only [signedUnits] <;> omega

theorem position_of_isFinite {a : Binary64} (h : a.isFinite = true) :
    a.position = a.signedUnits := by
  cases a <;> simp_all [position, isFinite]

theorem isFinite_of_position {a : Binary64} (h : a.isNaN = false)
    (hpos : a.position.natAbs < unitsBound) : a.isFinite = true := by
  cases a with
  | nan => simp [isNaN] at h
  | infinite s =>
    simp only [position] at hpos
    split at hpos <;> omega
  | finite => rfl

theorem isNaN_of_isFinite {a : Binary64} (h : a.isFinite = true) : a.isNaN = false := by
  cases a <;> simp_all [isNaN, isFinite]

theorem position_le (a : Binary64) : a.position ≤ unitsBound := by
  have := unitsBound_pos
  have := signedUnits_lt a
  cases a with
  | nan => simp only [position]; omega
  | infinite s => simp only [position]; split <;> omega
  | finite => simp only [position]; omega

theorem le_position (a : Binary64) : -(unitsBound : Int) ≤ a.position := by
  have := unitsBound_pos
  have := neg_lt_signedUnits a
  cases a with
  | nan => simp only [position]; omega
  | infinite s => simp only [position]; split <;> omega
  | finite => simp only [position]; omega

/-! ## Comparisons -/

theorem lt_iff {a b : Binary64} :
    a < b ↔ a.isNaN = false ∧ b.isNaN = false ∧ a.position < b.position := by
  show a.lt b = true ↔ _
  have := unitsBound_pos
  have ha := signedUnits_lt a
  have ha' := neg_lt_signedUnits a
  have hb := signedUnits_lt b
  have hb' := neg_lt_signedUnits b
  cases a with
  | nan => simp [lt, isNaN]
  | infinite s =>
    cases b with
    | nan => simp [lt, isNaN]
    | infinite t =>
      cases s <;> cases t <;> simp [lt, isNaN, position]
      all_goals omega
    | finite => cases s <;> simp [lt, isNaN, position] <;> omega
  | finite =>
    cases b with
    | nan => simp [lt, isNaN]
    | infinite t => cases t <;> simp [lt, isNaN, position] <;> omega
    | finite => simp [lt, isNaN, position]

theorem equal_iff {a b : Binary64} :
    a.equal b = true ↔ a.isNaN = false ∧ b.isNaN = false ∧ a.position = b.position := by
  have := unitsBound_pos
  have ha := signedUnits_lt a
  have ha' := neg_lt_signedUnits a
  have hb := signedUnits_lt b
  have hb' := neg_lt_signedUnits b
  cases a with
  | nan => simp [equal, isNaN]
  | infinite s =>
    cases b with
    | nan => simp [equal, isNaN]
    | infinite t => cases s <;> cases t <;> simp [equal, isNaN, position] <;> omega
    | finite => cases s <;> simp [equal, isNaN, position] <;> omega
  | finite =>
    cases b with
    | nan => simp [equal, isNaN]
    | infinite t => cases t <;> simp [equal, isNaN, position] <;> omega
    | finite => simp [equal, isNaN, position]

theorem le_iff {a b : Binary64} :
    a ≤ b ↔ a.isNaN = false ∧ b.isNaN = false ∧ a.position ≤ b.position := by
  show a.le b = true ↔ _
  have hlt := @lt_iff a b
  have heq := @equal_iff a b
  rw [show (a < b) = (a.lt b = true) from rfl] at hlt
  rw [le, Bool.or_eq_true, hlt, heq]
  constructor
  · rintro (⟨hn, hm, h⟩ | ⟨hn, hm, h⟩) <;> exact ⟨hn, hm, by omega⟩
  · rintro ⟨hn, hm, h⟩
    rcases Int.lt_or_eq_of_le h with h | h
    · exact .inl ⟨hn, hm, h⟩
    · exact .inr ⟨hn, hm, h⟩

theorem equal_iff_le {a b : Binary64} : a.equal b = true ↔ a ≤ b ∧ b ≤ a := by
  rw [equal_iff, le_iff, le_iff]
  constructor
  · rintro ⟨ha, hb, heq⟩
    exact ⟨⟨ha, hb, Int.le_of_eq heq⟩, hb, ha, Int.le_of_eq heq.symm⟩
  · rintro ⟨⟨ha, hb, hab⟩, -, -, hba⟩
    exact ⟨ha, hb, Int.le_antisymm hab hba⟩

theorem lt_iff_signedUnits {a b : Binary64} (ha : a.isFinite = true) (hb : b.isFinite = true) :
    a < b ↔ a.signedUnits < b.signedUnits := by
  rw [lt_iff, position_of_isFinite ha, position_of_isFinite hb]
  simp [isNaN_of_isFinite ha, isNaN_of_isFinite hb]

theorem le_iff_signedUnits {a b : Binary64} (ha : a.isFinite = true) (hb : b.isFinite = true) :
    a ≤ b ↔ a.signedUnits ≤ b.signedUnits := by
  rw [le_iff, position_of_isFinite ha, position_of_isFinite hb]
  simp [isNaN_of_isFinite ha, isNaN_of_isFinite hb]

/-- Two numbers in order are finite unless one is the infinity on its side. -/
theorem le_cases {a b : Binary64} (h : a ≤ b) : a = .infinite true ∨ b = .infinite false ∨
    (a.isFinite = true ∧ b.isFinite = true ∧ a.signedUnits ≤ b.signedUnits) := by
  obtain ⟨ha, hb, hle⟩ := le_iff.1 h
  have := unitsBound_pos
  have hlt := signedUnits_lt b
  have hgt := neg_lt_signedUnits a
  cases a with
  | nan => simp [isNaN] at ha
  | infinite s =>
    cases s with
    | true => exact .inl rfl
    | false =>
      cases b with
      | nan => simp [isNaN] at hb
      | infinite t =>
        cases t with
        | true => simp only [position, Bool.false_eq_true, if_false, if_true] at hle; omega
        | false => exact .inr (.inl rfl)
      | finite => simp only [position, Bool.false_eq_true, if_false] at hle; omega
  | finite =>
    cases b with
    | nan => simp [isNaN] at hb
    | infinite t =>
      cases t with
      | true => simp only [position, if_true] at hle; omega
      | false => exact .inr (.inl rfl)
    | finite => exact .inr (.inr ⟨rfl, rfl, hle⟩)

/-! ## The total order -/

theorem totalLe_iff {a b : Binary64} : a.totalLe b = true ↔ b.isNaN = true ∨ a.isNaN = false ∧
    (a.position < b.position ∨
      a.position = b.position ∧ (a.isNegative = true ∨ b.isNegative = false)) := by
  have hlt : a.lt b = true ↔ _ := @lt_iff a b
  simp only [totalLe, Bool.or_eq_true, Bool.and_eq_true, Bool.not_eq_true', hlt, equal_iff]
  cases b.isNaN <;> cases a.isNaN <;> simp

theorem totalLe_trans {a b c : Binary64} (hab : a.totalLe b = true) (hbc : b.totalLe c = true) :
    a.totalLe c = true := by
  rw [totalLe_iff] at *
  grind

theorem totalLe_total (a b : Binary64) : (a.totalLe b || b.totalLe a) = true := by
  rw [Bool.or_eq_true, totalLe_iff, totalLe_iff]
  grind

theorem le_of_totalLe {a b : Binary64} (ha : a.isNaN = false) (hb : b.isNaN = false)
    (h : a.totalLe b = true) : a ≤ b := by
  rw [totalLe_iff] at h
  refine le_iff.2 ⟨ha, hb, ?_⟩
  rcases h with hnan | ⟨-, hlt | ⟨heq, -⟩⟩
  · rw [hb] at hnan
    cases hnan
  · exact Int.le_of_lt hlt
  · exact Int.le_of_eq heq

/-! ## The smaller and the larger of two -/

theorem lesser_isFinite {a b : Binary64} (ha : a.isFinite = true) (hb : b.isFinite = true) :
    (a.lesser b).isFinite = true := by
  unfold lesser
  split
  · exact hb
  · split
    · exact hb
    · exact ha

theorem signedUnits_lesser {a b : Binary64} (ha : a.isFinite = true) (hb : b.isFinite = true) :
    (a.lesser b).signedUnits = min a.signedUnits b.signedUnits := by
  unfold lesser
  simp only [isNaN_of_isFinite ha, lt_iff_signedUnits hb ha, Bool.false_eq_true, if_false]
  split <;> omega

theorem greater_isFinite {a b : Binary64} (ha : a.isFinite = true) (hb : b.isFinite = true) :
    (a.greater b).isFinite = true := by
  unfold greater
  split
  · exact hb
  · split
    · exact hb
    · exact ha

theorem signedUnits_greater {a b : Binary64} (ha : a.isFinite = true) (hb : b.isFinite = true) :
    (a.greater b).signedUnits = max a.signedUnits b.signedUnits := by
  unfold greater
  simp only [isNaN_of_isFinite ha, lt_iff_signedUnits ha hb, Bool.false_eq_true, if_false]
  split <;> omega

/-! ## Rounded results -/

/-- A magnitude with a sign. -/
def signed (negative : Bool) (magnitude : Int) : Int := if negative then -magnitude else magnitude

@[simp] theorem signed_false (magnitude : Int) : signed false magnitude = magnitude :=
  if_neg Bool.false_ne_true

@[simp] theorem signed_true (magnitude : Int) : signed true magnitude = -magnitude :=
  if_pos rfl

theorem ofUnits_isNaN (s : Bool) (num den : Nat) : (ofUnits s num den).isNaN = false := by
  unfold ofUnits
  dsimp only
  split <;> rfl

/-- **A rounded result lies where its exact units round to**, and at the bound if that is beyond. -/
theorem position_ofUnits (s : Bool) (num den : Nat) :
    (ofUnits s num den).position = signed s (min (roundUnits num den) unitsBound) := by
  unfold ofUnits
  dsimp only
  split
  · rename_i h
    cases s <;> simp only [position, signedUnits, signed_false, signed_true] <;> omega
  · rename_i h
    cases s <;> simp only [position, signed_false, signed_true, Bool.false_eq_true, if_false,
      if_true] <;> omega

theorem ofUnits_exact (s : Bool) {units : Nat} (below : units < unitsBound)
    (fits : SignificandFits units) : ofUnits s units 1 = .finite s units below fits := by
  have h := roundUnits_exact fits
  unfold ofUnits
  simp only [h, below, dif_pos]

theorem ofUnits_abs (s : Bool) (num den : Nat) :
    (ofUnits s num den).abs = ofUnits false num den := by
  unfold ofUnits
  dsimp only
  split <;> rfl

theorem ofSignedUnits_abs (z : Bool) (units : Int) :
    (ofSignedUnits z units).abs = ofUnits false units.natAbs 1 := by
  unfold ofSignedUnits
  split
  · rename_i h
    subst h
    exact ofUnits_abs z 0 1
  · exact ofUnits_abs _ _ 1

@[simp] theorem signedUnits_neg (a : Binary64) : a.neg.signedUnits = -a.signedUnits := by
  cases a with
  | nan | infinite s => rfl
  | finite s units below fits => cases s <;> simp [neg, signedUnits]

theorem sub_abs {a b : Binary64} (ha : a.isFinite = true) (hb : b.isFinite = true) :
    (a - b).abs = ofUnits false (a.signedUnits - b.signedUnits).natAbs 1 := by
  cases a with
  | nan | infinite s => simp [isFinite] at ha
  | finite s units below fits =>
    cases b with
    | nan | infinite s => simp [isFinite] at hb
    | finite t units' below' fits' =>
      have hn := signedUnits_neg (.finite t units' below' fits')
      show (ofSignedUnits _ (signedUnits _ + signedUnits _)).abs = _
      rw [ofSignedUnits_abs]
      simp only [neg] at hn
      rw [hn, ← Int.sub_eq_add_neg]

theorem ofUnits_le_ofUnits {num den num' den' : Nat} (hd : 0 < den) (hd' : 0 < den')
    (h : num * den' ≤ num' * den) : ofUnits false num den ≤ ofUnits false num' den' := by
  rw [le_iff, position_ofUnits, position_ofUnits]
  have := roundUnits_mono hd hd' h
  refine ⟨ofUnits_isNaN _ _ _, ofUnits_isNaN _ _ _, ?_⟩
  rw [signed_false, signed_false]
  omega

theorem le_self {a : Binary64} (h : a.isNaN = false) : a ≤ a := le_iff.2 ⟨h, h, Int.le_refl _⟩

theorem le_refl {a : Binary64} (h : a.isFinite = true) : a ≤ a := le_self (isNaN_of_isFinite h)

theorem le_trans {a b c : Binary64} (hab : a ≤ b) (hbc : b ≤ c) : a ≤ c := by
  rw [le_iff] at *
  exact ⟨hab.1, hbc.2.1, Int.le_trans hab.2.2 hbc.2.2⟩

theorem le_of_lt {a b : Binary64} (h : a < b) : a ≤ b := by
  rw [lt_iff] at h
  rw [le_iff]
  exact ⟨h.1, h.2.1, Int.le_of_lt h.2.2⟩

theorem lt_of_le_of_lt {a b c : Binary64} (hab : a ≤ b) (hbc : b < c) : a < c := by
  rw [le_iff] at hab
  rw [lt_iff] at *
  exact ⟨hab.1, hbc.2.1, Int.lt_of_le_of_lt hab.2.2 hbc.2.2⟩

theorem lt_of_lt_of_le {a b c : Binary64} (hab : a < b) (hbc : b ≤ c) : a < c := by
  rw [le_iff] at hbc
  rw [lt_iff] at *
  exact ⟨hab.1, hbc.2.1, Int.lt_of_lt_of_le hab.2.2 hbc.2.2⟩

theorem lt_irrefl (a : Binary64) : ¬ a < a := fun h => Int.lt_irrefl _ (lt_iff.1 h).2.2

theorem lt_asymm {a b : Binary64} (h : a < b) : ¬ b < a := fun h' =>
  Int.lt_asymm (lt_iff.1 h).2.2 (lt_iff.1 h').2.2

theorem not_le_of_lt {a b : Binary64} (h : a < b) : ¬ b ≤ a := by
  rw [lt_iff] at h
  rw [le_iff]
  omega

theorem not_lt {a b : Binary64} (ha : a.isNaN = false) (hb : b.isNaN = false) :
    ¬ a < b ↔ b ≤ a := by
  rw [lt_iff, le_iff, ha, hb]
  simp

/-! ## Quotients -/

@[simp] theorem position_zero : zero.position = 0 := by
  show (ofUnits false (0 * unitsPerOne) 1).position = 0
  rw [position_ofUnits, Nat.zero_mul, roundUnits_zero]
  rw [signed_false]
  omega

/-- A finite number above zero. -/
structure Positive (dt : Binary64) : Prop where
  isFinite : dt.isFinite = true
  pos : zero < dt

theorem Positive.cases {dt : Binary64} (h : dt.Positive) :
    ∃ units below fits, dt = .finite false units below fits ∧ 0 < units := by
  have hp := (lt_iff.1 h.pos).2.2
  rw [position_zero, position_of_isFinite h.isFinite] at hp
  cases dt with
  | nan | infinite s => have := h.isFinite; simp [Binary64.isFinite] at this
  | finite s units below fits =>
    cases s
    · simp only [signedUnits] at hp
      exact ⟨units, below, fits, rfl, by omega⟩
    · simp only [signedUnits] at hp
      omega

theorem Positive.signedUnits_pos {dt : Binary64} (h : dt.Positive) : 0 < dt.signedUnits := by
  obtain ⟨units, below, fits, rfl, hpos⟩ := h.cases
  simp only [signedUnits]
  omega

/-- The exact ratio of a whole number of units, rounded with its sign. -/
def roundSigned (num : Int) (den : Nat) : Int :=
  signed (decide (num < 0)) (min (roundUnits num.natAbs den) unitsBound)

theorem roundSigned_neg (m : Int) (den : Nat) : roundSigned (-m) den = -roundSigned m den := by
  unfold roundSigned signed
  rw [Int.natAbs_neg]
  rcases Int.lt_trichotomy m 0 with h | rfl | h
  · simp only [decide_eq_true_eq]
    rw [if_neg (by omega), if_pos h]
    omega
  · simp
  · simp only [decide_eq_true_eq]
    rw [if_pos (by omega), if_neg (by omega)]

theorem roundSigned_natCast (m den : Nat) :
    roundSigned m den = min (roundUnits m den : Int) unitsBound := by
  rw [roundSigned, decide_eq_false (by omega), signed_false, Int.natAbs_natCast]

theorem natAbs_roundSigned (num : Int) (den : Nat) :
    (roundSigned num den).natAbs = min (roundUnits num.natAbs den) unitsBound := by
  unfold roundSigned signed
  split <;> omega

theorem position_ofUnits_signed (s : Bool) (num den : Nat) :
    (ofUnits s num den).position = roundSigned (signed s num) den := by
  rw [position_ofUnits]
  cases s
  · rw [signed_false, signed_false, roundSigned_natCast]
  · rw [signed_true, signed_true, roundSigned_neg, roundSigned_natCast]

/-- **A quotient by a positive number lies where the exact ratio rounds to.** -/
theorem position_div {t dt : Binary64} (ht : t.isFinite = true) (hd : dt.Positive) :
    (t / dt).position = roundSigned (t.signedUnits * unitsPerOne) dt.signedUnits.toNat := by
  obtain ⟨units, below, fits, rfl, hpos⟩ := hd.cases
  cases t with
  | nan | infinite s => simp [Binary64.isFinite] at ht
  | finite s a below' fits' =>
    have hdiv : (Binary64.finite s a below' fits') / (Binary64.finite false units below fits) =
        ofUnits s (a * unitsPerOne) units := by
      show div _ _ = _
      simp only [div, Nat.ne_of_gt hpos, if_false]
      cases s <;> rfl
    have hsign : (Binary64.finite s a below' fits').signedUnits * unitsPerOne =
        signed s (a * unitsPerOne : Nat) := by
      cases s with
      | false => exact (Int.natCast_mul a unitsPerOne).symm
      | true =>
        rw [signed_true, Int.natCast_mul]
        exact Int.neg_mul _ _
    rw [hdiv, hsign, position_ofUnits_signed]
    rfl

theorem div_isNaN {t dt : Binary64} (ht : t.isNaN = false) (hd : dt.Positive) :
    (t / dt).isNaN = false := by
  obtain ⟨units, below, fits, rfl, hpos⟩ := hd.cases
  cases t with
  | nan => simp [isNaN] at ht
  | infinite s => rfl
  | finite s a below' fits' =>
    show (div _ _).isNaN = false
    simp only [div, Nat.ne_of_gt hpos, if_false]
    exact ofUnits_isNaN _ _ _

theorem roundSigned_mono {m n : Int} {den : Nat} (hd : 0 < den) (h : m ≤ n) :
    roundSigned m den ≤ roundSigned n den := by
  unfold roundSigned signed
  simp only [decide_eq_true_eq]
  split
  · split
    · have := roundUnits_mono hd hd
        (Nat.mul_le_mul_right den (show n.natAbs ≤ m.natAbs by omega))
      omega
    · have := unitsBound_pos; omega
  · split
    · omega
    · have := roundUnits_mono hd hd
        (Nat.mul_le_mul_right den (show m.natAbs ≤ n.natAbs by omega))
      omega

theorem roundSigned_mul (n : Int) {den : Nat} (hd : 0 < den) :
    roundSigned (n * den) den = roundSigned n 1 := by
  have hneg : n * den < 0 ↔ n < 0 := by
    constructor
    · intro h
      exact Int.lt_of_mul_lt_mul_right (a := den) (by omega) (by omega)
    · intro h
      exact Int.mul_neg_of_neg_of_pos h (by omega)
  unfold roundSigned
  rw [Int.natAbs_mul, Int.natAbs_natCast, roundUnits_congr hd Nat.one_pos (Nat.mul_one _)]
  simp only [hneg]

theorem roundSigned_exact {n : Int} (fits : SignificandFits n.natAbs)
    (below : n.natAbs < unitsBound) : roundSigned n 1 = n := by
  unfold roundSigned signed
  rw [roundUnits_exact fits]
  simp only [decide_eq_true_eq]
  split <;> omega

section
variable {t dt : Binary64} (ht : t.isFinite = true) (hd : dt.Positive) {n : Int}
include ht hd

theorem position_div_le (h : t.signedUnits ≤ n * dt.signedUnits) :
    (t / dt).position ≤ roundSigned (n * unitsPerOne) 1 := by
  have hpos := hd.signedUnits_pos
  rw [position_div ht hd, ← roundSigned_mul _ (show 0 < dt.signedUnits.toNat by omega)]
  refine roundSigned_mono (by omega) ?_
  rw [Int.toNat_of_nonneg (by omega), Int.mul_right_comm]
  exact Int.mul_le_mul_of_nonneg_right h (by omega)

theorem le_position_div (h : n * dt.signedUnits ≤ t.signedUnits) :
    roundSigned (n * unitsPerOne) 1 ≤ (t / dt).position := by
  have hpos := hd.signedUnits_pos
  rw [position_div ht hd, ← roundSigned_mul _ (show 0 < dt.signedUnits.toNat by omega)]
  refine roundSigned_mono (by omega) ?_
  rw [Int.toNat_of_nonneg (by omega), Int.mul_right_comm]
  exact Int.mul_le_mul_of_nonneg_right h (by omega)

end

theorem infinite_div {s : Bool} {dt : Binary64} (hd : dt.Positive) :
    Binary64.infinite s / dt = .infinite s := by
  obtain ⟨units, below, fits, rfl, hpos⟩ := hd.cases
  show Binary64.infinite (s != false) = _
  cases s <;> rfl

/-- **Quotients by a positive number grow with the dividend.** -/
theorem div_le_div {a b dt : Binary64} (hd : dt.Positive) (h : a ≤ b) : a / dt ≤ b / dt := by
  obtain ⟨ha, hb, -⟩ := le_iff.1 h
  refine le_iff.2 ⟨div_isNaN ha hd, div_isNaN hb hd, ?_⟩
  rcases le_cases h with rfl | rfl | ⟨ha, hb, hle⟩
  · rw [infinite_div hd]
    exact le_position _
  · rw [infinite_div hd]
    exact position_le _
  · have hdpos := hd.signedUnits_pos
    rw [position_div ha hd, position_div hb hd]
    exact roundSigned_mono (by omega) (Int.mul_le_mul_of_nonneg_right hle (by omega))

/-! ## Products -/

/-- **A product of finite numbers lies where the exact product rounds to.** -/
theorem mul_spec {a b : Binary64} (ha : a.isFinite = true) (hb : b.isFinite = true) :
    (a * b).isNaN = false ∧
      (a * b).position = roundSigned (a.signedUnits * b.signedUnits) unitsPerOne := by
  cases a with
  | nan | infinite s => simp [isFinite] at ha
  | finite s m below fits =>
    cases b with
    | nan | infinite s => simp [isFinite] at hb
    | finite t n below' fits' =>
      have hmul : Binary64.finite s m below fits * Binary64.finite t n below' fits' =
          ofUnits (s != t) (m * n) unitsPerOne := rfl
      have hsign : (Binary64.finite s m below fits).signedUnits *
          (Binary64.finite t n below' fits').signedUnits = signed (s != t) (m * n : Nat) := by
        have hcast := Int.natCast_mul m n
        cases s with
        | false =>
          cases t with
          | false => exact hcast.symm
          | true => exact (Int.mul_neg _ _).trans (congrArg _ hcast.symm)
        | true =>
          cases t with
          | false => exact (Int.neg_mul _ _).trans (congrArg _ hcast.symm)
          | true => exact (Int.neg_mul_neg _ _).trans hcast.symm
      rw [hmul, hsign]
      exact ⟨ofUnits_isNaN _ _ _, position_ofUnits_signed _ _ _⟩

/-! ## Sums -/

theorem position_ofSignedUnits (z : Bool) (units : Int) :
    (ofSignedUnits z units).position = roundSigned units 1 := by
  unfold ofSignedUnits
  split
  · rename_i h
    subst h
    rw [position_ofUnits, roundSigned]
    cases z <;> simp
  · rw [position_ofUnits, roundSigned]

theorem ofSignedUnits_isNaN (z : Bool) (units : Int) : (ofSignedUnits z units).isNaN = false := by
  unfold ofSignedUnits
  split
  · exact ofUnits_isNaN _ _ _
  · exact ofUnits_isNaN _ _ _

/-- **A sum of finite numbers lies where the exact sum rounds to.** -/
theorem add_spec {a b : Binary64} (ha : a.isFinite = true) (hb : b.isFinite = true) :
    (a + b).isNaN = false ∧ (a + b).position = roundSigned (a.signedUnits + b.signedUnits) 1 := by
  cases a with
  | nan | infinite s => simp [isFinite] at ha
  | finite s units below fits =>
    cases b with
    | nan | infinite s => simp [isFinite] at hb
    | finite t units' below' fits' =>
      exact ⟨ofSignedUnits_isNaN _ _, position_ofSignedUnits _ _⟩

theorem roundSigned_signedUnits {a : Binary64} (ha : a.isFinite = true) :
    roundSigned a.signedUnits 1 = a.signedUnits := by
  cases a with
  | nan | infinite s => simp [isFinite] at ha
  | finite s units below fits =>
    have habs : (Binary64.finite s units below fits).signedUnits.natAbs = units := by
      cases s <;> simp [signedUnits]
    exact roundSigned_exact (habs.symm ▸ fits) (habs.symm ▸ below)

theorem signedUnits_nonneg {a : Binary64} (ha : a.isFinite = true) (h : ¬ a < zero) :
    0 ≤ a.signedUnits := by
  have hzero : zero.isNaN = false := ofUnits_isNaN _ _ _
  rw [lt_iff, position_zero, position_of_isFinite ha] at h
  simpa [isNaN_of_isFinite ha, hzero] using h

/-- **Adding what is not negative leads no further back**, even where the sum overflows. -/
theorem le_add {a b : Binary64} (ha : a.isFinite = true) (hb : b.isFinite = true)
    (h : ¬ b < zero) : a ≤ a + b := by
  have hb0 := signedUnits_nonneg hb h
  obtain ⟨hnan, hpos⟩ := add_spec ha hb
  refine le_iff.2 ⟨isNaN_of_isFinite ha, hnan, ?_⟩
  calc a.position = a.signedUnits := position_of_isFinite ha
    _ = roundSigned a.signedUnits 1 := (roundSigned_signedUnits ha).symm
    _ ≤ roundSigned (a.signedUnits + b.signedUnits) 1 := roundSigned_mono Nat.one_pos (by omega)
    _ = (a + b).position := hpos.symm

end Binary64
end PulseSequencer
