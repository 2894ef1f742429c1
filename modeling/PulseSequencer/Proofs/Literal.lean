import PulseSequencer.Decimal.Layout
import PulseSequencer.Proofs.Decimal

/-!
Numbers and their written forms.

A literal is taken apart at its point and at the mark of its power of ten, which are no digits, so a
text put together from digits and a power of ten comes apart into them again
(`ofChars?_of_fraction`, `ofChars?_of_whole`).  Every layout of a JSON number is such a text and has
the digits of the decimal that it lays out: `exists_literal`.
-/

namespace PulseSequencer

/-! ## Digits -/

namespace Decimal

theorem valueOfDigits_eq (cs : List Char) : valueOfDigits cs = Nat.ofDigitChars 10 cs 0 := rfl

@[simp] theorem valueOfDigits_toDigits (n : Nat) : valueOfDigits (Nat.toDigits 10 n) = n :=
  Nat.ofDigitChars_toDigits (by decide) (by decide)

theorem valueOfDigits_zeros_append (n : Nat) (cs : List Char) :
    valueOfDigits (List.replicate n '0' ++ cs) = valueOfDigits cs := by
  simp [valueOfDigits_eq, Nat.ofDigitChars_append]

theorem valueOfDigits_append_zeros (cs : List Char) (n : Nat) :
    valueOfDigits (cs ++ List.replicate n '0') = valueOfDigits cs * 10 ^ n := by
  simp [valueOfDigits_eq, Nat.ofDigitChars_append, Nat.mul_comm]

theorem isDigit_toDigits {n : Nat} {c : Char} (h : c ∈ Nat.toDigits 10 n) : c.isDigit = true :=
  Nat.isDigit_of_mem_toDigits (by decide) (by decide) h

theorem natural?_toDigits (n : Nat) : natural? (Nat.toDigits 10 n) = some n := by
  have hall : (Nat.toDigits 10 n).all Char.isDigit = true :=
    List.all_eq_true.2 fun _ => isDigit_toDigits
  simp [natural?, hall, Nat.toDigits_ne_nil]

theorem isDigit_zeros {n : Nat} {c : Char} (h : c ∈ List.replicate n '0') : c.isDigit = true := by
  rw [List.eq_of_mem_replicate h]
  decide

theorem head?_toDigits_append (n : Nat) (cs : List Char) :
    (Nat.toDigits 10 n ++ cs).head? = (Nat.toDigits 10 n).head? := by
  rw [List.head?_append, List.head?_eq_some_head Nat.toDigits_ne_nil, Option.some_or]

theorem toDigits_head_zero {n : Nat} (h : (Nat.toDigits 10 n).head? = some '0') : n = 0 := by
  induction n using Nat.strongRecOn with
  | ind n ih =>
    rcases Nat.lt_or_ge n 10 with hlt | hge
    · rw [Nat.toDigits_of_lt_base hlt] at h
      simpa using h
    · rw [Nat.toDigits_of_base_le (by decide) hge, head?_toDigits_append] at h
      have := ih (n / 10) (by omega) h
      omega

end Decimal

theorem toList_pushn (s : String) (c : Char) (n : Nat) :
    (s.pushn c n).toList = s.toList ++ List.replicate n c := by
  rw [String.pushn_eq_repeat_push]
  induction n with
  | zero => simp [Nat.repeat]
  | succ n ih => simp [Nat.repeat, ih, List.replicate_succ']

theorem toList_toString_nat (n : Nat) : (toString n).toList = Nat.toDigits 10 n := by simp

theorem length_toString_nat (n : Nat) : (toString n).length = (Nat.toDigits 10 n).length := by
  rw [← String.length_toList, toList_toString_nat]

theorem toString_natCast (n : Nat) : toString (n : Int) = toString n := rfl

theorem toString_negNat {n : Nat} (h : 0 < n) : toString (-n : Int) = "-" ++ toString n := by
  obtain ⟨m, rfl⟩ := Nat.exists_eq_succ_of_ne_zero (Nat.ne_of_gt h)
  rfl

/-! ## Taking a literal apart -/

namespace Decimal.Literal

section
variable {w f t : List Char} {e : Option Int}

theorem head_of_exponent? (h : exponent? t = some e) :
    t = [] ∨ ∃ c rest, t = c :: rest ∧ c.isDigit = false ∧ c ≠ '.' := by
  cases t with
  | nil => exact .inl rfl
  | cons c rest =>
    refine .inr ⟨c, rest, rfl, ?_⟩
    by_cases hc : c = 'e' ∨ c = 'E'
    · rcases hc with rfl | rfl <;> decide
    · simp [exponent?, hc] at h

variable (he : exponent? t = some e)
include he

theorem takeWhile_append_exponent (h : ∀ c ∈ w, c.isDigit = true) :
    (w ++ t).takeWhile Char.isDigit = w := by
  rw [List.takeWhile_append_of_pos h]
  obtain rfl | ⟨c, rest, rfl, hc, -⟩ := head_of_exponent? he
  · simp
  · simp [hc]

theorem dropWhile_append_exponent (h : ∀ c ∈ w, c.isDigit = true) :
    (w ++ t).dropWhile Char.isDigit = t := by
  rw [List.dropWhile_append_of_pos h]
  obtain rfl | ⟨c, rest, rfl, hc, -⟩ := head_of_exponent? he
  · rfl
  · simp [hc]

variable (hw : ∀ c ∈ w, c.isDigit = true) (hne : w ≠ [])
include hw hne

theorem ofChars?_of_whole : ofChars? (w ++ t) = some ⟨w, none, e⟩ := by
  unfold ofChars?
  simp only [takeWhile_append_exponent he hw, dropWhile_append_exponent he hw]
  obtain rfl | ⟨c, rest, rfl, -, hdot⟩ := head_of_exponent? he
  · simp [he, hne]
  · simp [he, hne, hdot]

theorem ofChars?_of_fraction (hf : ∀ c ∈ f, c.isDigit = true) :
    ofChars? (w ++ '.' :: (f ++ t)) = some ⟨w, some f, e⟩ := by
  have htake : (w ++ '.' :: (f ++ t)).takeWhile Char.isDigit = w := by
    rw [List.takeWhile_append_of_pos hw]
    simp
  have hdrop : (w ++ '.' :: (f ++ t)).dropWhile Char.isDigit =
      '.' :: (f ++ t) := by
    rw [List.dropWhile_append_of_pos hw]
    simp
  unfold ofChars?
  simp only [htake, hdrop, takeWhile_append_exponent he hf, dropWhile_append_exponent he hf]
  simp [he, hne]

end

/-! ## Layouts -/

/-- A JSON number that is written with a point or a power of ten, with the digits of `d`; zeros up
to the first place after the point may be filled in. -/
structure Denotes (l : Literal) (d : Decimal) : Prop where
  whole_ne : l.whole ≠ []
  fraction_ne : l.fraction ≠ some []
  leading : l.whole.head? = some '0' → l.whole = ['0']
  notWhole : l.isWhole = false
  value : l.toDecimal = d ∨
    0 ≤ d.exponent ∧ l.toDecimal = ⟨d.digits * 10 ^ (d.exponent + 1).toNat, -1⟩

theorem Denotes.toBinary64_eq {l : Literal} {d : Decimal} (h : l.Denotes d) (s : Bool) :
    l.toDecimal.toBinary64 s = d.toBinary64 s := by
  rcases h.value with heq | ⟨hnonneg, heq⟩
  · rw [heq]
  · rw [heq]
    refine toBinary64_congr s (k := 1) (by simp) (by omega) ?_
    simp

end Decimal.Literal

namespace Layout

open Decimal Literal

theorem exponent?_power (e : Int) :
    exponent? ((if e < 0 then "e" else json.powerMark) ++ toString e).toList = some (some e) := by
  by_cases he : e < 0
  · obtain ⟨n, hn, rfl⟩ : ∃ n : Nat, 0 < n ∧ e = -n := ⟨e.natAbs, by omega, by omega⟩
    rw [if_pos he, toString_negNat hn, String.toList_append, String.toList_append,
      toList_toString_nat]
    simp [exponent?, natural?_toDigits]
  · obtain ⟨n, rfl⟩ : ∃ n : Nat, e = n := ⟨e.toNat, by omega⟩
    rw [if_neg he, toString_natCast, String.toList_append, toList_toString_nat]
    simp [exponent?, natural?_toDigits, json]

section
variable (d : Decimal) {e : Int}
  (he : e = d.exponent + ((Nat.toDigits 10 d.digits).length - 1 : Nat))
include he

theorem exists_literal_withPower :
    ∃ l, ofChars? (json.withPower (toString d.digits) e).toList = some l ∧ l.Denotes d := by
  have hdigit : ∀ c ∈ Nat.toDigits 10 d.digits, c.isDigit = true := fun _ => isDigit_toDigits
  have hvalue := valueOfDigits_toDigits d.digits
  unfold withPower
  dsimp only
  split
  · rename_i first second rest hds
    rw [toList_toString_nat] at hds
    rw [hds] at he hdigit hvalue
    have hdec : toDecimal ⟨[first], some (second :: rest), some e⟩ = d := by
      simp_all [toDecimal]
    refine ⟨_, ?_, (by simp), (by simp), (by simp), rfl, .inl hdec⟩
    rw [String.toList_append, String.toList_ofList]
    exact ofChars?_of_fraction (w := [first]) (exponent?_power e) (by simp_all) (by simp)
      (by simp_all)
  · rename_i hmany
    obtain ⟨c, hds⟩ : ∃ c, Nat.toDigits 10 d.digits = [c] := by
      cases hds : Nat.toDigits 10 d.digits with
      | nil => exact absurd hds Nat.toDigits_ne_nil
      | cons c rest =>
        cases rest with
        | nil => exact ⟨c, rfl⟩
        | cons c' rest => exact (hmany c c' rest (by rw [toList_toString_nat, hds])).elim
    rw [hds] at he hdigit hvalue
    have hdec : toDecimal ⟨[c], none, some e⟩ = d := by
      simp_all [toDecimal]
    refine ⟨_, ?_, (by simp), (by simp), (by simp), rfl, .inl hdec⟩
    rw [String.toList_append, toList_toString_nat, hds]
    exact ofChars?_of_whole (exponent?_power e) hdigit (by simp)

theorem exists_literal_below (hneg : e < 0) :
    ∃ l, ofChars? (json.inPlace (toString d.digits) e).toList = some l ∧ l.Denotes d := by
  have hvalue := valueOfDigits_zeros_append ((-e - 1).toNat + 1) (Nat.toDigits 10 d.digits)
  have hpos : 0 < (Nat.toDigits 10 d.digits).length := Nat.length_toDigits_pos
  rw [List.replicate_succ, valueOfDigits_toDigits] at hvalue
  have hdec : toDecimal ⟨['0'], some (List.replicate (-e - 1).toNat '0' ++
      Nat.toDigits 10 d.digits), none⟩ = d := by
    simp only [toDecimal, Option.getD_some, Option.getD_none, List.length_append,
      List.length_replicate]
    cases d
    congr 1
    dsimp only at *
    omega
  refine ⟨_, ?_, by simp, by simp [Nat.toDigits_ne_nil], by simp, rfl, .inl hdec⟩
  have h := ofChars?_of_fraction (w := ['0']) (t := []) rfl
    (fun _ => isDigit_zeros (n := 1)) (by decide)
    (List.forall_mem_append.2 ⟨fun _ => isDigit_zeros (n := (-e - 1).toNat),
      fun _ => isDigit_toDigits (n := d.digits)⟩)
  rw [List.append_nil] at h
  rw [inPlace, if_pos hneg, String.toList_append, String.toList_append, toList_pushn,
    toList_toString_nat, List.append_assoc]
  exact h

/-- Zeros are filled in up to the point; there are none after a zero. -/
theorem exists_literal_filled (hzero : d.digits = 0 → d.exponent = 0) (hnonneg : ¬ e < 0)
    (hshort : (Nat.toDigits 10 d.digits).length ≤ e.toNat + 1) :
    ∃ l, ofChars? (json.inPlace (toString d.digits) e).toList = some l ∧ l.Denotes d := by
  have hpos : 0 < (Nat.toDigits 10 d.digits).length := Nat.length_toDigits_pos
  obtain ⟨k, hk, hexp⟩ : ∃ k, e.toNat + 1 - (Nat.toDigits 10 d.digits).length = k ∧
      d.exponent = k := ⟨_, rfl, by omega⟩
  refine ⟨⟨Nat.toDigits 10 d.digits ++ List.replicate k '0', some ['0'], none⟩, ?_, ?_⟩
  · have h := ofChars?_of_fraction (f := ['0']) (t := []) rfl
      (List.forall_mem_append.2 ⟨fun _ => isDigit_toDigits (n := d.digits),
        fun _ => isDigit_zeros (n := k)⟩) (by simp [Nat.toDigits_ne_nil])
      (fun _ => isDigit_zeros (n := 1))
    rwa [inPlace, if_neg hnonneg, length_toString_nat, if_pos hshort, hk, String.toList_append,
      String.toList_append, toList_pushn, toList_toString_nat]
  · refine ⟨by simp [Nat.toDigits_ne_nil], by simp, ?_, rfl, ?_⟩
    · intro hhead
      rw [head?_toDigits_append] at hhead
      have h0 := toDigits_head_zero hhead
      have hk0 : k = 0 := by
        have := hzero h0
        omega
      simp [h0, hk0, Nat.toDigits_zero]
    · have hdigits := valueOfDigits_append_zeros (Nat.toDigits 10 d.digits) (k + 1)
      rw [List.replicate_succ', ← List.append_assoc, valueOfDigits_toDigits] at hdigits
      refine .inr ⟨by omega, ?_⟩
      simp only [toDecimal, Option.getD_some, Option.getD_none, hdigits, List.length_singleton]
      rw [hexp]
      simp [Int.toNat_natCast_add_one]

theorem exists_literal_among (hnonneg : ¬ e < 0)
    (hlong : ¬ (Nat.toDigits 10 d.digits).length ≤ e.toNat + 1) :
    ∃ l, ofChars? (json.inPlace (toString d.digits) e).toList = some l ∧ l.Denotes d := by
  have hdec : toDecimal ⟨(Nat.toDigits 10 d.digits).take (e.toNat + 1),
      some ((Nat.toDigits 10 d.digits).drop (e.toNat + 1)), none⟩ = d := by
    simp only [toDecimal, Option.getD_some, Option.getD_none, List.take_append_drop,
      valueOfDigits_toDigits, List.length_drop]
    cases d
    congr 1
    dsimp only at *
    omega
  refine ⟨_, ?_, by simp [Nat.toDigits_ne_nil], by simp; omega, ?_, rfl, .inl hdec⟩
  · have h := ofChars?_of_fraction (w := (Nat.toDigits 10 d.digits).take (e.toNat + 1))
      (f := (Nat.toDigits 10 d.digits).drop (e.toNat + 1)) (t := []) rfl
      (fun _ h => isDigit_toDigits (List.mem_of_mem_take h)) (by simp [Nat.toDigits_ne_nil])
      (fun _ h => isDigit_toDigits (List.mem_of_mem_drop h))
    rw [List.append_nil] at h
    rw [inPlace, if_neg hnonneg, length_toString_nat, if_neg hlong]
    simp only [String.toList_append, String.toList_ofList, toList_toString_nat, List.append_assoc]
    exact h
  · intro hhead
    rw [List.head?_take, if_neg (by omega)] at hhead
    rw [toDigits_head_zero hhead] at hlong
    simp [Nat.toDigits_zero] at hlong

end

/-- **Every layout of a JSON number spells a literal of the same value.** -/
theorem exists_literal {d : Decimal} (hzero : d.digits = 0 → d.exponent = 0) :
    ∃ l, ofChars? (json.writeDecimal d).toList = some l ∧ l.Denotes d := by
  unfold writeDecimal
  dsimp only
  rw [length_toString_nat]
  split
  · by_cases hneg : d.exponent + ((Nat.toDigits 10 d.digits).length - 1 : Nat) < 0
    · exact exists_literal_below d rfl hneg
    · by_cases hshort : (Nat.toDigits 10 d.digits).length ≤
          (d.exponent + ((Nat.toDigits 10 d.digits).length - 1 : Nat)).toNat + 1
      · exact exists_literal_filled d rfl hzero hneg hshort
      · exact exists_literal_among d rfl hneg hshort
  · exact exists_literal_withPower d rfl

end Layout

end PulseSequencer
