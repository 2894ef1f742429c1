import PulseSequencer.Json.Token
import PulseSequencer.Proofs.Binary64.Whole
import PulseSequencer.Proofs.Literal

/-!
JSON numbers read back.

A number is read as its significand times a power of ten, both of them doubles.  Naturals up to
`2^53` and powers of ten up to `10^22` are doubles, and then the product is rounded once: a decimal
made of such parts is read as the nearest double (`scaled_eq`).  So a double whose shortest decimal
is made of such parts is read back (`number?_write`), and every integer of 64 bits is
(`number?_toDigits`).
-/

namespace PulseSequencer

namespace Binary64

theorem neg_ofUnits (num den : Nat) : -ofUnits false num den = ofUnits true num den := by
  unfold ofUnits
  dsimp only
  split <;> rfl

theorem ofNat_eq_finite {n : Nat} (below : n * unitsPerOne < unitsBound)
    (fits : SignificandFits (n * unitsPerOne)) :
    ofNat n = .finite false (n * unitsPerOne) below fits :=
  ofUnits_eq_finite false (roundUnits_exact fits) below fits

theorem ofNat_div {m n : Nat} (hn : 0 < n)
    (hm : m * unitsPerOne < unitsBound ∧ SignificandFits (m * unitsPerOne))
    (hfits : n * unitsPerOne < unitsBound ∧ SignificandFits (n * unitsPerOne)) :
    ofNat m / ofNat n = ofRatio false m n := by
  have hpos : 0 < n * unitsPerOne := Nat.mul_pos hn unitsPerOne_pos
  rw [ofNat_eq_finite hm.1 hm.2, ofNat_eq_finite hfits.1 hfits.2]
  show (if n * unitsPerOne = 0 then _ else ofUnits false _ _) = _
  rw [if_neg (Nat.ne_of_gt hpos)]
  refine ofUnits_congr false (roundUnits_congr hpos hn ?_)
  rw [Nat.mul_assoc, Nat.mul_comm unitsPerOne n]

theorem ofNat_mul {m n : Nat}
    (hm : m * unitsPerOne < unitsBound ∧ SignificandFits (m * unitsPerOne))
    (hn : n * unitsPerOne < unitsBound ∧ SignificandFits (n * unitsPerOne)) :
    ofNat m * ofNat n = ofRatio false (m * n) 1 := by
  rw [ofNat_eq_finite hm.1 hm.2, ofNat_eq_finite hn.1 hn.2]
  refine ofUnits_congr false (roundUnits_congr unitsPerOne_pos Nat.one_pos ?_)
  rw [Nat.mul_one, Nat.mul_mul_mul_comm, ← Nat.mul_assoc (m * n)]

theorem fits_ten_pow {n : Nat} (h : n ≤ 22) :
    10 ^ n * unitsPerOne < unitsBound ∧ SignificandFits (10 ^ n * unitsPerOne) := by
  constructor
  · refine Nat.lt_of_le_of_lt (Nat.mul_le_mul_right _ (Nat.pow_le_pow_right (by decide) h)) ?_
    decide +kernel
  · obtain ⟨e, he⟩ := exists_unitsPerOne_eq
    have hten : 10 ^ n * unitsPerOne = 5 ^ n * 2 ^ (n + e) := by
      rw [he, Nat.pow_add, ← Nat.mul_assoc, ← Nat.mul_pow]
    rw [hten]
    refine fits_mul_two_pow _ (Nat.le_trans (Nat.pow_le_pow_right (by decide) h) ?_)
    decide

end Binary64

theorem Decimal.neg_toBinary64 (d : Decimal) : -d.toBinary64 false = d.toBinary64 true := by
  have hk : 0 ≤ d.exponent + ((-d.exponent).toNat : Nat) := by omega
  rw [toBinary64_eq false hk, toBinary64_eq true hk, Binary64.ofRatio, Binary64.ofRatio,
    Binary64.neg_ofUnits]

namespace Json

open Decimal Literal

/-! ## Significands -/

namespace Number

theorem le_ofDigitChars (cs : List Char) (n : Nat) : n ≤ Nat.ofDigitChars 10 cs n := by
  induction cs generalizing n with
  | nil => simp
  | cons c cs ih =>
    rw [Nat.ofDigitChars_cons]
    exact Nat.le_trans (by omega) (ih _)

theorem significand_eq {n : Nat} {cs : List Char} (h : Nat.ofDigitChars 10 cs n < 2 ^ 64) :
    significand n cs = (Nat.ofDigitChars 10 cs n, []) := by
  induction cs generalizing n with
  | nil => simp [significand]
  | cons c cs ih =>
    rw [Nat.ofDigitChars_cons] at h ⊢
    have hnext := Nat.lt_of_le_of_lt (le_ofDigitChars cs _) h
    rw [significand, if_pos hnext, ih h]

theorem ofLiteral_eq {l : Literal} (h : l.toDecimal.digits < 2 ^ 64) :
    ofLiteral l = l.toDecimal := by
  simp only [toDecimal, valueOfDigits_eq, Nat.ofDigitChars_append] at h
  have hwhole := significand_eq (Nat.lt_of_le_of_lt (le_ofDigitChars _ _) h)
  simp only [ofLiteral, hwhole, significand_eq h]
  simp [toDecimal, valueOfDigits_eq, Nat.ofDigitChars_append]

/-! ## Powers of ten -/

/-- **A decimal whose parts are doubles is read as the nearest double.** -/
theorem scaled_eq {d : Decimal} (hdigits : d.digits ≤ 2 ^ 53) (hlow : -22 ≤ d.exponent)
    (hhigh : d.exponent ≤ 22) : scaled d = d.toBinary64 false := by
  have hm := Binary64.fits_small hdigits
  unfold scaled
  dsimp only
  split
  · rename_i hneg
    have hle : (-d.exponent).toNat ≤ 22 := by omega
    rw [divide, if_pos (Nat.le_trans hle (by decide)), powerOfTen,
      Binary64.ofNat_div (Nat.pow_pos (by decide)) hm (Binary64.fits_ten_pow hle),
      toBinary64_eq false (k := (-d.exponent).toNat) (by omega)]
    have hzero : (d.exponent + ((-d.exponent).toNat : Nat)).toNat = 0 := by omega
    rw [hzero, Nat.pow_zero, Nat.mul_one]
  · rename_i hnonneg
    have hle : d.exponent.toNat ≤ 22 := by omega
    rw [if_pos (Int.le_trans hhigh (by decide)), powerOfTen,
      Binary64.ofNat_mul hm (Binary64.fits_ten_pow hle), toBinary64_eq false (k := 0) (by omega)]
    simp

/-- One more digit than the significand of a double has, and the last place is off by two. -/
example : scaled ⟨9009292685003217, -15⟩ = toBinary64 false ⟨9009292685003215, -15⟩ := by
  decide +kernel

end Number

/-! ## Numbers -/

/-- A decimal whose parts are doubles even if zeros are filled in up to the first place after the
point. -/
structure Short (d : Decimal) : Prop where
  digits : d.digits * 10 ^ (d.exponent + 1).toNat ≤ 2 ^ 53
  low : -22 ≤ d.exponent
  high : d.exponent ≤ 22

instance (d : Decimal) : Decidable (Short d) :=
  decidable_of_iff (_ ∧ _ ∧ _) ⟨fun h => ⟨h.1, h.2.1, h.2.2⟩, fun h => ⟨h.digits, h.low, h.high⟩⟩

theorem Short.scaled_eq {l : Literal} {d : Decimal} (hd : Short d) (h : l.Denotes d) :
    Number.scaled (Number.ofLiteral l) = d.toBinary64 false := by
  have hparts : l.toDecimal.digits ≤ 2 ^ 53 ∧ -22 ≤ l.toDecimal.exponent ∧
      l.toDecimal.exponent ≤ 22 := by
    rcases h.value with heq | ⟨-, heq⟩
    · rw [heq]
      exact ⟨Nat.le_trans (Nat.le_mul_of_pos_right _ (Nat.pow_pos (by decide))) hd.digits, hd.low,
        hd.high⟩
    · rw [heq]
      exact ⟨hd.digits, by simp, by simp⟩
  rw [Number.ofLiteral_eq (Nat.lt_of_le_of_lt hparts.1 (by decide)),
    Number.scaled_eq hparts.1 hparts.2.1 hparts.2.2, h.toBinary64_eq]

/-- A literal with a point or a power of ten is read as the double of its value, if that is
short. -/
theorem number?_of_denotes {cs : List Char} {l : Literal} {d : Decimal} (s : Bool)
    (hl : ofChars? cs = some l) (h : l.Denotes d) (hd : Short d)
    (hfinite : (d.toBinary64 false).isFinite = true) :
    number? s cs = some (.number (d.toBinary64 s)) := by
  have hwhole := h.whole_ne
  have hfraction := h.fraction_ne
  have hleading : ¬ (l.whole.head? = some '0' ∧ l.whole ≠ ['0']) := by
    intro hbad
    exact hbad.2 (h.leading hbad.1)
  unfold number?
  cases s <;> simp [hl, hwhole, hfraction, hleading, h.notWhole, hd.scaled_eq h, hfinite,
    neg_toBinary64]

/-- The decimal that a double is written as. -/
def written (units : Nat) : Decimal :=
  if units = 0 then ⟨0, 0⟩ else shortest Layout.json.tie units

/-- A double with a short written form. -/
def ShortForm : Binary64 → Prop
  | .finite _ units .. => Short (written units)
  | _ => False

instance : DecidablePred ShortForm
  | .finite _ units .. => inferInstanceAs (Decidable (Short (written units)))
  | .nan | .infinite _ => inferInstanceAs (Decidable False)

/-- **A short double that is written is read back**, sign and all. -/
theorem number?_write {units : Nat} (s : Bool) (below : units < Binary64.unitsBound)
    (fits : Binary64.SignificandFits units) (hshort : Short (written units)) :
    number? s (Layout.json.writeDecimal (written units)).toList =
      some (.number (.finite s units below fits)) := by
  have hback : ∀ s, (written units).toBinary64 s = .finite s units below fits := by
    intro s
    by_cases h0 : units = 0
    · subst h0
      exact Binary64.ofUnits_eq_finite s (Binary64.roundUnits_zero 1) below fits
    · rw [written, if_neg h0]
      exact toBinary64_shortest (Nat.pos_of_ne_zero h0) below fits Layout.json.tie s
  have hzero : (written units).digits = 0 → (written units).exponent = 0 := by
    by_cases h0 : units = 0
    · simp [written, h0]
    · rw [written, if_neg h0]
      intro h
      have hpos := digits_shortest_pos (Nat.pos_of_ne_zero h0) below fits Layout.json.tie
      omega
  obtain ⟨l, hl, hd⟩ := Layout.exists_literal hzero
  rw [← hback]
  exact number?_of_denotes s hl hd hshort (by rw [hback]; rfl)

theorem ofChars?_toDigits (n : Nat) :
    ofChars? (Nat.toDigits 10 n) = some ⟨Nat.toDigits 10 n, none, none⟩ := by
  have h := ofChars?_of_whole (t := []) rfl (fun _ => isDigit_toDigits (n := n)) Nat.toDigits_ne_nil
  rwa [List.append_nil] at h

theorem number?_toDigits {s : Bool} {n : Nat} {v : Int}
    (h : s = false ∧ n < 2 ^ 64 ∧ v = n ∨ s = true ∧ 0 < n ∧ n ≤ 2 ^ 63 ∧ v = -n) :
    number? s (Nat.toDigits 10 n) = some (.integer v) := by
  have hleading : ¬ ((Nat.toDigits 10 n).head? = some '0' ∧ Nat.toDigits 10 n ≠ ['0']) := by
    intro hbad
    exact hbad.2 (by rw [toDigits_head_zero hbad.1, Nat.toDigits_zero])
  unfold number?
  rw [ofChars?_toDigits, Option.bind_eq_bind, Option.bind_some]
  rw [if_neg (by simp [Nat.toDigits_ne_nil]), if_neg hleading]
  simp only [isWhole, valueOfDigits_toDigits]
  rcases h with ⟨rfl, hn, rfl⟩ | ⟨rfl, hpos, hn, rfl⟩
  · rw [if_pos ⟨rfl, by decide, hn⟩]
    rfl
  · rw [if_neg (by simp), if_pos ⟨rfl, rfl, Nat.ne_of_gt hpos, hn⟩]
    rfl

/-! ## Words -/

namespace Token

/-- A character that a number may hold. -/
def inNumber (c : Char) : Bool :=
  c.isDigit || c = '.' || c = 'e' || c = 'E' || c = '+' || c = '-'

theorem not_isBoundary_of_inNumber {c : Char} (h : inNumber c = true) : isBoundary c = false := by
  cases hb : isBoundary c with
  | false => rfl
  | true =>
    simp only [isBoundary, isBlank, Bool.or_eq_true, decide_eq_true_eq] at hb
    rcases hb with ((((rfl | rfl) | rfl) | rfl) | rfl) | hb
    iterate 5 exact absurd h (by decide)
    unfold punctuation? at hb
    split at hb
    iterate 6 exact absurd h (by decide)
    cases hb

theorem inNumber_of_isDigit {cs : List Char} (h : cs.all Char.isDigit = true) :
    ∀ c ∈ cs, inNumber c = true := by
  intro c hc
  simp [inNumber, List.all_eq_true.1 h c hc]

theorem inNumber_of_natural? {cs : List Char} {n : Nat} (h : natural? cs = some n) :
    ∀ c ∈ cs, inNumber c = true := by
  unfold natural? at h
  split at h
  · cases h
  · rename_i hdigits
    exact inNumber_of_isDigit (by simp_all)

theorem inNumber_of_exponent? {cs : List Char} {e : Option Int} (h : exponent? cs = some e) :
    ∀ c ∈ cs, inNumber c = true := by
  have hmark : ∀ {c : Char}, c = 'e' ∨ c = 'E' → inNumber c = true := by
    intro c hc
    rcases hc with rfl | rfl <;> decide
  have hpower : ∀ {cs : List Char} {f : Int → Option Int},
      Option.map f (do let n ← natural? cs; pure (n : Int)) = some e →
        ∀ c ∈ cs, inNumber c = true := by
    intro cs f hf
    obtain ⟨_, hn, -⟩ := Option.map_eq_some_iff.1 hf
    obtain ⟨n, hn, -⟩ := Option.bind_eq_some_iff.1 hn
    exact inNumber_of_natural? hn
  revert h
  fun_cases exponent? cs with
  | case1 => simp
  | case2 mark hm cs | case3 mark hm cs =>
    intro h
    exact List.forall_mem_cons.2 ⟨hmark hm, List.forall_mem_cons.2 ⟨by decide, hpower h⟩⟩
  | case4 mark hm rest =>
    intro h
    exact List.forall_mem_cons.2 ⟨hmark hm, hpower h⟩
  | case5 => simp

theorem inNumber_of_ofChars? {cs : List Char} {l : Literal} (h : ofChars? cs = some l) :
    ∀ c ∈ cs, inNumber c = true := by
  have htake : ∀ cs : List Char, ∀ c ∈ cs.takeWhile Char.isDigit, inNumber c = true := by
    intro cs
    exact inNumber_of_isDigit List.all_takeWhile
  rw [← List.takeWhile_append_dropWhile (p := Char.isDigit) (l := cs)]
  refine List.forall_mem_append.2 ⟨htake cs, ?_⟩
  unfold ofChars? at h
  dsimp only at h
  split at h
  · rename_i rest hrest
    rw [hrest]
    split at h
    · cases h
    · obtain ⟨e, he, -⟩ := Option.map_eq_some_iff.1 h
      rw [← List.takeWhile_append_dropWhile (p := Char.isDigit) (l := rest)]
      exact List.forall_mem_cons.2 ⟨by decide,
        List.forall_mem_append.2 ⟨htake rest, inNumber_of_exponent? he⟩⟩
  · split at h
    · cases h
    · obtain ⟨e, he, -⟩ := Option.map_eq_some_iff.1 h
      exact inNumber_of_exponent? he

theorem whole_of_ofChars? {cs : List Char} {l : Literal} (h : ofChars? cs = some l) :
    l.whole = cs.takeWhile Char.isDigit := by
  unfold ofChars? at h
  dsimp only at h
  split at h
  all_goals
    split at h
    · cases h
    · obtain ⟨e, -, rfl⟩ := Option.map_eq_some_iff.1 h
      rfl

theorem literal_of_number? {s : Bool} {cs : List Char} {v : Json} (h : number? s cs = some v) :
    ∃ l c rest, ofChars? cs = some l ∧ cs = c :: rest ∧ c.isDigit = true := by
  unfold number? at h
  obtain ⟨l, hl, h⟩ := Option.bind_eq_some_iff.1 h
  have hwhole : l.whole ≠ [] := by
    intro hw
    simp [hw] at h
  rw [whole_of_ofChars? hl] at hwhole
  cases cs with
  | nil => exact absurd rfl hwhole
  | cons c rest =>
    refine ⟨l, c, rest, hl, rfl, ?_⟩
    by_cases hc : c.isDigit = true
    · exact hc
    · simp [hc] at hwhole

/-- Characters none of which ends a word, and the value that they spell. -/
structure IsWord (cs : List Char) (v : Json) : Prop where
  ne_nil : cs ≠ []
  inside : ∀ c ∈ cs, isBoundary c = false
  value : word? cs = some v

theorem isWord_of_any {cs : List Char} {v : Json} (hne : cs ≠ [])
    (h : cs.any isBoundary = false) (hv : word? cs = some v) : IsWord cs v :=
  ⟨hne, by simpa using h, hv⟩

theorem isWord_of_number? {s : Bool} {cs : List Char} {v : Json} (h : number? s cs = some v) :
    IsWord ((if s then ['-'] else []) ++ cs) v := by
  obtain ⟨l, c, rest, hl, rfl, hc⟩ := literal_of_number? h
  have hinside : ∀ d ∈ c :: rest, isBoundary d = false := by
    intro d hd
    exact not_isBoundary_of_inNumber (inNumber_of_ofChars? hl d hd)
  cases s with
  | true => exact ⟨by simp, List.forall_mem_cons.2 ⟨by decide, hinside⟩, h⟩
  | false =>
    refine ⟨by simp, hinside, ?_⟩
    show word? (c :: rest) = some v
    unfold word?
    split
    case h_5 => exact h
    all_goals
      rename_i heq
      cases heq
      exact absurd hc (by decide)

theorem isWord_integer {n : Int} (hlow : -2 ^ 63 ≤ n) (hhigh : n < 2 ^ 64) :
    IsWord (toString n).toList (.integer n) := by
  by_cases hn : 0 ≤ n
  · obtain ⟨m, rfl⟩ := Int.eq_ofNat_of_zero_le hn
    rw [toString_natCast, toList_toString_nat]
    exact isWord_of_number? (number?_toDigits (.inl ⟨rfl, by omega, rfl⟩))
  · obtain ⟨m, hm, rfl⟩ : ∃ m : Nat, 0 < m ∧ n = -m := ⟨n.natAbs, by omega, by omega⟩
    rw [toString_negNat hm, String.toList_append, toList_toString_nat]
    exact isWord_of_number? (number?_toDigits (.inr ⟨rfl, hm, by omega, rfl⟩))

theorem isWord_number {x : Binary64} (h : ShortForm x) :
    IsWord (Layout.json.write x).toList (.number x) := by
  cases x with
  | nan => cases h
  | infinite s => cases h
  | finite s units below fits =>
    have hword := isWord_of_number? (number?_write s below fits h)
    rw [Layout.write, String.toList_append]
    cases s <;> exact hword

end Token

end Json
end PulseSequencer
