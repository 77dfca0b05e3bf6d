import Mathlib.Data.Nat.Digits.Lemmas
import Mathlib.Tactic.IntervalCases
import WpaCliWrapper.CText.Bytes

/-! Decimal numbers as `%d` writes them and `atoi` reads them. -/
namespace CText

def isSpace (c : UInt8) : Bool := c == 32 || (9 ≤ c && c ≤ 13)
def isDigit (c : UInt8) : Bool := 48 ≤ c && c ≤ 57

def digitChar (d : ℕ) : UInt8 := (48+d).toUInt8

/-- The decimal digits of a natural number, without leading zeros. -/
def decimalNat (n : ℕ) : Bytes :=
  if n = 0 then [48] else ((Nat.digits 10 n).map digitChar).reverse

/-- The conversion `%d`. -/
def decimal (z : ℤ) : Bytes :=
  if z < 0 then 45 :: decimalNat z.natAbs else decimalNat z.natAbs

def digitsValue (s : Bytes) : ℕ := s.foldl (fun n c => 10*n+(c.toNat-48)) 0

/-- The value as `long` of `strtol`, which stops at the ends of its range. -/
def clampLong (z : ℤ) : ℤ := max (-2^63) (min (2^63-1) z)

/-- `atoi` is `strtol` cut to 32 bits. -/
def atoi (s : Bytes) : ℤ :=
  let v : ℤ := match s.dropWhile isSpace with
    | 45 :: r => -(digitsValue (r.takeWhile isDigit) : ℤ)
    | 43 :: r => digitsValue (r.takeWhile isDigit)
    | r => digitsValue (r.takeWhile isDigit)
  (clampLong v).bmod (2^32)

example : atoi (ascii " -63 dBm") = -63 := by decide
example : atoi (ascii "FAIL\n") = 0 := by decide

theorem isDigit_digitChar {d : ℕ} (h : d < 10) : isDigit (digitChar d) := by
  interval_cases d <;> decide

theorem digitChar_toNat {d : ℕ} (h : d < 10) : (digitChar d).toNat-48 = d := by
  interval_cases d <;> decide

theorem decimalNat_isDigit {n : ℕ} {c : UInt8} (h : c ∈ decimalNat n) : isDigit c := by
  unfold decimalNat at h
  split at h
  · rw [List.mem_singleton] at h
    subst h
    decide
  · simp only [List.mem_reverse,List.mem_map] at h
    obtain ⟨d,hd,rfl⟩ := h
    exact isDigit_digitChar (Nat.digits_lt_base (by norm_num) hd)

theorem decimalNat_ne_nil (n : ℕ) : decimalNat n ≠ [] := by
  unfold decimalNat
  split
  · simp
  · simpa [Nat.digits_ne_nil_iff_ne_zero]

theorem digitsValue_reverse {ds : List ℕ} (h : ∀ d ∈ ds, d < 10) :
    digitsValue (ds.map digitChar).reverse = Nat.ofDigits 10 ds := by
  induction ds with
  | nil => rfl
  | cons d ds ih =>
    have ih := ih fun e he => h e (by simp [he])
    unfold digitsValue at ih ⊢
    simp only [List.map_cons,List.reverse_cons,List.foldl_append,ih,List.foldl_cons,
      List.foldl_nil,digitChar_toNat (h d (by simp)),Nat.ofDigits_cons]
    omega

@[simp] theorem digitsValue_decimalNat (n : ℕ) : digitsValue (decimalNat n) = n := by
  unfold decimalNat
  split
  · subst n; decide
  · rw [digitsValue_reverse fun d hd => Nat.digits_lt_base (by norm_num) hd,Nat.ofDigits_digits]

/-- The digits end where the number ends. -/
theorem takeWhile_decimalNat (n : ℕ) {rest : Bytes} (h : ∀ c ∈ rest.head?, isDigit c = false) :
    (decimalNat n ++ rest).takeWhile isDigit = decimalNat n := by
  rw [List.takeWhile_append_of_pos fun c hc => decimalNat_isDigit hc]
  cases rest with
  | nil => simp
  | cons c rest => simp [h c (by simp)]

theorem clampLong_bmod {z : ℤ} (h : -2^31 ≤ z ∧ z < 2^31) : (clampLong z).bmod (2^32) = z := by
  have hc : clampLong z = z := by
    unfold clampLong
    omega
  rw [hc]
  exact Int.bmod_eq_of_le (by omega) (by omega)

theorem isSpace_of_isDigit {c : UInt8} (h : isDigit c) : isSpace c = false := by
  simp only [isDigit,Bool.and_eq_true,decide_eq_true_eq,UInt8.le_iff_toNat_le] at h
  simp only [isSpace,Bool.or_eq_false_iff,beq_eq_false_iff_ne,ne_eq,Bool.and_eq_false_iff,
    decide_eq_false_iff_not,UInt8.le_iff_toNat_le]
  refine ⟨fun he => ?_,Or.inr ?_⟩
  · subst he
    simp at h
  · have h1 : (48 : UInt8).toNat = 48 := rfl
    have h2 : (13 : UInt8).toNat = 13 := rfl
    omega

/-- A number never starts with white space or a sign other than the one `%d` writes. -/
theorem decimalNat_cons (n : ℕ) : ∃ c s, decimalNat n = c :: s ∧ isDigit c := by
  obtain ⟨c,s,hs⟩ := List.exists_cons_of_ne_nil (decimalNat_ne_nil n)
  exact ⟨c,s,hs,decimalNat_isDigit (n := n) (by simp [hs])⟩

/-- `atoi` reads back what `%d` wrote, whatever follows the number. -/
theorem atoi_decimal_append {z : ℤ} (hz : -2^31 ≤ z ∧ z < 2^31) {rest : Bytes}
    (hr : ∀ c ∈ rest.head?, isDigit c = false) : atoi (decimal z ++ rest) = z := by
  have htake := takeWhile_decimalNat z.natAbs hr
  by_cases hneg : z < 0
  · have hd : decimal z ++ rest = 45 :: (decimalNat z.natAbs ++ rest) := by simp [decimal,hneg]
    have hv : -((z.natAbs : ℕ) : ℤ) = z := by omega
    rw [hd,atoi,List.dropWhile_cons_of_neg (by decide)]
    simp only [htake,digitsValue_decimalNat,hv]
    exact clampLong_bmod hz
  · obtain ⟨c,s,hs,hc⟩ := decimalNat_cons z.natAbs
    have hd : decimal z ++ rest = decimalNat z.natAbs ++ rest := by simp [decimal,hneg]
    have hv : ((z.natAbs : ℕ) : ℤ) = z := by omega
    have hdrop : (decimalNat z.natAbs ++ rest).dropWhile isSpace = decimalNat z.natAbs ++ rest := by
      rw [hs,List.cons_append,List.dropWhile_cons_of_neg (by simp [isSpace_of_isDigit hc])]
    have h45 : c ≠ 45 := by rintro rfl; exact absurd hc (by decide)
    have h43 : c ≠ 43 := by rintro rfl; exact absurd hc (by decide)
    rw [hd,atoi,hdrop]
    have hm : ∀ v : ℤ, v = z → (clampLong v).bmod (2^32) = z := fun v hv => hv ▸ clampLong_bmod (hv ▸ hz)
    apply hm
    split
    · rename_i heq
      rw [hs] at heq
      simp only [List.cons_append,List.cons.injEq] at heq
      exact absurd heq.1 h45
    · rename_i heq
      rw [hs] at heq
      simp only [List.cons_append,List.cons.injEq] at heq
      exact absurd heq.1 h43
    · rw [htake,digitsValue_decimalNat,hv]

theorem decimal_head (z : ℤ) : ∃ c s, decimal z = c :: s ∧ (c = 45 ∨ isDigit c) := by
  obtain ⟨c,s,hs,hc⟩ := decimalNat_cons z.natAbs
  unfold decimal
  split
  · exact ⟨45,_,rfl,.inl rfl⟩
  · exact ⟨c,s,hs,.inr hc⟩

theorem decimal_mem {z : ℤ} {c : UInt8} (h : c ∈ decimal z) : c = 45 ∨ isDigit c := by
  unfold decimal at h
  split at h
  · rcases List.mem_cons.mp h with rfl | h
    · exact .inl rfl
    · exact .inr (decimalNat_isDigit h)
  · exact .inr (decimalNat_isDigit h)

theorem decimalNat_length {n k : ℕ} (hk : 0 < k) (h : n < 10^k) : (decimalNat n).length ≤ k := by
  unfold decimalNat
  split
  · exact hk
  · rw [List.length_reverse,List.length_map]
    exact (Nat.digits_length_le_iff (by norm_num) n).mpr h

/-- A number of type `int` has at most eleven characters. -/
theorem decimal_length {z : ℤ} (h : -2^31 ≤ z ∧ z < 2^31) : (decimal z).length ≤ 11 := by
  have hn := decimalNat_length (n := z.natAbs) (k := 10) (by norm_num) (by omega)
  unfold decimal
  split
  · rw [List.length_cons]
    omega
  · omega

end CText
