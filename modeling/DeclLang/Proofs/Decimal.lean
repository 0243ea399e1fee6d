import DeclLang.Decimal
import DeclLang.Proofs.Lexical.Spelling
import Mathlib.Algebra.Group.Int.Defs
import Mathlib.Algebra.Group.Nat.Defs

/-!
# Reading decimal numbers

`Decimal.int64?_eq_some_iff` says which texts a signed 64-bit integer is read from.  The digits of a
source text are one kind of them, and never a negative number (`Decimal.integer?_of_isNumber`); the
printed form of a number that is not negative is another (`Decimal.integer?_toString`).

`Decimal.Writes` says the same apart from the functions that read: what an integer is written as.
There is no bound on the digits or on their value; `Decimal.int64?_eq_none_iff` puts the bound to
it.
-/

namespace DeclLang

/-- A signed 64-bit integer is read from a text that is written as that integer; no other text is
in its range. -/
theorem Decimal.int64?_eq_some_iff {digits : String} {n : Int64} :
    int64? digits = some n ↔ integer? digits.toList = some n.toInt := by
  unfold int64?
  cases integer? digits.toList with
  | none => simp
  | some m =>
    simp only [Option.some.injEq]
    constructor
    · intro h
      split at h
      · next hrange =>
        cases h
        exact (Int64.toInt_ofInt_of_le hrange.1 (Int.lt_add_one_of_le hrange.2)).symm
      · cases h
    · rintro rfl
      rw [if_pos ⟨n.le_toInt, Int.le_of_lt_add_one n.toInt_lt⟩, Int64.ofInt_toInt]

/-- A run of digits is read as its value, and never as a negative number. -/
theorem Decimal.integer?_of_isNumber {digits : List Char} (h : IsNumber digits) :
    integer? digits = some (value digits : Int) := by
  obtain ⟨c, cs, rfl, hdigits⟩ := h
  have hc : c.isDigit = true := hdigits c List.mem_cons_self
  have hnatural : natural? (c :: cs) = some (value (c :: cs)) :=
    if_pos ⟨List.cons_ne_nil _ _, List.all_eq_true.2 hdigits⟩
  unfold integer?
  split
  · next heq =>
    obtain ⟨rfl, -⟩ := List.cons.inj heq
    exact absurd hc (by decide)
  · next heq =>
    obtain ⟨rfl, -⟩ := List.cons.inj heq
    exact absurd hc (by decide)
  · rw [hnatural]
    rfl

theorem Decimal.toList_toString {n : Int} (h : 0 ≤ n) :
    (toString n).toList = Nat.toDigits 10 n.toNat := by
  obtain ⟨k, rfl⟩ := Int.eq_ofNat_of_zero_le h
  rw [Int.toNat_natCast]
  simp [toString, Int.repr, Nat.repr]

theorem Decimal.isNumber_toDigits (n : Nat) : IsNumber (Nat.toDigits 10 n) := by
  obtain ⟨c, cs, hcs⟩ := List.exists_cons_of_ne_nil (@Nat.toDigits_ne_nil n 10)
  refine ⟨c, cs, hcs, ?_⟩
  rw [← hcs]
  intro d hd
  exact Nat.isDigit_of_mem_toDigits (by decide) (by decide) hd

theorem Decimal.value_toDigits (n : Nat) : value (Nat.toDigits 10 n) = n := by
  have h := @Nat.ofDigitChars_ten_toDigits n
  rwa [Nat.ofDigitChars_eq_foldl] at h

/-- Different numbers are printed differently. -/
theorem Decimal.toString_injective : Function.Injective (toString : Nat → String) := by
  intro m n h
  have hdigits : Nat.toDigits 10 m = Nat.toDigits 10 n := by
    rw [← Nat.toList_repr, ← Nat.toList_repr]
    exact congrArg String.toList h
  calc
    m = value (Nat.toDigits 10 m) := (value_toDigits m).symm
    _ = value (Nat.toDigits 10 n) := by rw [hdigits]
    _ = n := value_toDigits n

theorem Decimal.integer?_toString {n : Int} (h : 0 ≤ n) :
    integer? (toString n).toList = some n := by
  rw [toList_toString h, integer?_of_isNumber (isNumber_toDigits _), value_toDigits,
    Int.toNat_of_nonneg h]

/-! ## What is written as an integer -/

/-- A run of digits is written as its value in base ten, and one sign may stand in front of it. -/
inductive Decimal.Writes : List Char → Int → Prop where
  | plain {digits : List Char} (h : IsNumber digits) :
      Writes digits (Nat.ofDigitChars 10 digits 0)
  | plus {digits : List Char} (h : IsNumber digits) :
      Writes ('+' :: digits) (Nat.ofDigitChars 10 digits 0)
  | minus {digits : List Char} (h : IsNumber digits) :
      Writes ('-' :: digits) (-(Nat.ofDigitChars 10 digits 0 : Int))

namespace Decimal

/-- The value of digits is their value in base ten. -/
theorem value_eq_ofDigitChars (digits : List Char) :
    value digits = Nat.ofDigitChars 10 digits 0 := by
  rw [Nat.ofDigitChars_eq_foldl, value]

theorem natural?_eq_some_iff {text : List Char} {n : Nat} :
    natural? text = some n ↔ IsNumber text ∧ Nat.ofDigitChars 10 text 0 = n := by
  rw [natural?, Option.ite_none_right_eq_some, Option.some.injEq, value_eq_ofDigitChars]
  refine and_congr_left fun _ => ?_
  cases text with
  | nil => exact iff_of_false (fun h => h.1 rfl) (fun h => h.ne_nil rfl)
  | cons c cs => simp [IsNumber]

theorem integer?_minus (digits : List Char) :
    integer? ('-' :: digits) = (natural? digits).map fun n : Nat => -(n : Int) := by
  rw [integer?]
  cases natural? digits <;> rfl

theorem integer?_plus (digits : List Char) :
    integer? ('+' :: digits) = (natural? digits).map fun n : Nat => (n : Int) := by
  rw [integer?]
  cases natural? digits <;> rfl

/-- Without a sign, only digits are read. -/
theorem integer?_of_unsigned {text : List Char} (hminus : text.head? ≠ some '-')
    (hplus : text.head? ≠ some '+') :
    integer? text = (natural? text).map fun n : Nat => (n : Int) := by
  unfold integer?
  split
  · exact absurd rfl hminus
  · exact absurd rfl hplus
  · cases natural? text <;> rfl

/-- An integer is read from what is written as that integer, and from nothing else. -/
theorem integer?_eq_some_iff {text : List Char} {v : Int} :
    integer? text = some v ↔ Writes text v := by
  constructor
  · intro h
    by_cases hminus : text.head? = some '-'
    · obtain ⟨digits, rfl⟩ := List.head?_eq_some_iff.1 hminus
      rw [integer?_minus] at h
      obtain ⟨n, hn, rfl⟩ := Option.map_eq_some_iff.1 h
      obtain ⟨hdigits, rfl⟩ := natural?_eq_some_iff.1 hn
      exact .minus hdigits
    by_cases hplus : text.head? = some '+'
    · obtain ⟨digits, rfl⟩ := List.head?_eq_some_iff.1 hplus
      rw [integer?_plus] at h
      obtain ⟨n, hn, rfl⟩ := Option.map_eq_some_iff.1 h
      obtain ⟨hdigits, rfl⟩ := natural?_eq_some_iff.1 hn
      exact .plus hdigits
    rw [integer?_of_unsigned hminus hplus] at h
    obtain ⟨n, hn, rfl⟩ := Option.map_eq_some_iff.1 h
    obtain ⟨hdigits, rfl⟩ := natural?_eq_some_iff.1 hn
    exact .plain hdigits
  · intro h
    cases h with
    | plain hdigits => rw [integer?_of_isNumber hdigits, value_eq_ofDigitChars]
    | plus hdigits => rw [integer?_plus, natural?_eq_some_iff.2 ⟨hdigits, rfl⟩, Option.map_some]
    | minus hdigits => rw [integer?_minus, natural?_eq_some_iff.2 ⟨hdigits, rfl⟩, Option.map_some]

theorem Writes.unique {text : List Char} {v w : Int} (hv : Writes text v) (hw : Writes text w) :
    v = w := by
  rw [← integer?_eq_some_iff] at hv hw
  exact Option.some.inj (hv.symm.trans hw)

theorem toList_toString_negSucc (n : Nat) :
    (toString (Int.negSucc n)).toList = '-' :: Nat.toDigits 10 (n + 1) := by
  simp [toString, Int.repr, Nat.repr]

/-- An integer is printed in digits, with a minus sign before them if it is negative. -/
theorem mem_toString {v : Int} {c : Char} (h : c ∈ (toString v).toList) :
    c = '-' ∨ c.isDigit = true := by
  have hdigit : ∀ n, c ∈ Nat.toDigits 10 n → c.isDigit = true := fun n hn =>
    Nat.isDigit_of_mem_toDigits (by decide) (by decide) hn
  cases v with
  | ofNat n =>
    have hnonneg : 0 ≤ Int.ofNat n := Int.natCast_nonneg n
    rw [toList_toString hnonneg] at h
    exact .inr (hdigit _ h)
  | negSucc n =>
    rw [toList_toString_negSucc, List.mem_cons] at h
    exact h.imp_right (hdigit _)

theorem lineFeed_notMem_toString (v : Int) : '\n' ∉ (toString v).toList := by
  intro h
  rcases mem_toString h with hsign | hdigit
  · exact absurd hsign (by decide)
  · exact absurd hdigit (by decide)

/-- Every integer is printed as it is written. -/
theorem writes_toString (v : Int) : Writes (toString v).toList v := by
  cases v with
  | ofNat n =>
    rw [← integer?_eq_some_iff]
    exact integer?_toString (Int.natCast_nonneg n)
  | negSucc n =>
    have hdigits := Writes.minus (isNumber_toDigits (n + 1))
    rw [Nat.ofDigitChars_ten_toDigits] at hdigits
    rw [toList_toString_negSucc]
    exact hdigits

/-- Different integers are printed differently. -/
theorem toString_int_injective : Function.Injective (toString : Int → String) := by
  intro v w h
  have hw := writes_toString w
  rw [← h] at hw
  exact (writes_toString v).unique hw

/-- The integers that 64 bits have room for. -/
theorem exists_toInt_eq_iff {v : Int} :
    (∃ n : Int64, n.toInt = v) ↔ -2 ^ 63 ≤ v ∧ v ≤ 2 ^ 63 - 1 := by
  constructor
  · rintro ⟨n, rfl⟩
    exact ⟨n.le_toInt, Int.le_of_lt_add_one n.toInt_lt⟩
  · rintro ⟨hmin, hmax⟩
    exact ⟨.ofInt v, Int64.toInt_ofInt_of_le hmin (Int.lt_add_one_of_le hmax)⟩

theorem int64?_eq_some_iff_writes {text : String} {n : Int64} :
    int64? text = some n ↔ Writes text.toList n.toInt := by
  rw [int64?_eq_some_iff, integer?_eq_some_iff]

/-- Nothing is read from a text exactly if it is written as no integer that there is room for. -/
theorem int64?_eq_none_iff {text : String} :
    int64? text = none ↔ ¬ ∃ v, Writes text.toList v ∧ -2 ^ 63 ≤ v ∧ v ≤ 2 ^ 63 - 1 := by
  rw [Option.eq_none_iff_forall_not_mem, not_exists]
  constructor
  · rintro h v ⟨hv, hrange⟩
    obtain ⟨n, rfl⟩ := exists_toInt_eq_iff.2 hrange
    exact h n (int64?_eq_some_iff_writes.2 hv)
  · intro h n hn
    exact h n.toInt ⟨int64?_eq_some_iff_writes.1 hn, exists_toInt_eq_iff.1 ⟨n, rfl⟩⟩

end Decimal

end DeclLang
