import WpaCliWrapper.CText.Decimal

/-! `strtol` with base 0: the text itself says whether it is decimal, octal or hexadecimal. -/
namespace CText

/-- A digit or a letter as the value of a digit, or a value that is too large for any base. -/
def digitOf (c : UInt8) : ℕ :=
  if isDigit c then c.toNat-48 else if 97 ≤ toLower c && toLower c ≤ 122 then (toLower c).toNat-87
  else 36

def baseValue (base : ℕ) (digits : Bytes) : ℕ := digits.foldl (fun n c => base*n+digitOf c) 0

/-- The base and the digits; `0x` counts only if a digit follows. -/
def autoBase : Bytes → ℕ × Bytes
  | 48 :: x :: d :: rest =>
    if toLower x = 120 ∧ digitOf d < 16 then (16,d :: rest) else (8,48 :: x :: d :: rest)
  | 48 :: rest => (8,48 :: rest)
  | digits => (10,digits)

def signed : Bytes → Bool × Bytes
  | 45 :: s => (true,s)
  | 43 :: s => (false,s)
  | s => (false,s)

/-- `strtol(s, &end, 0)`: the value, and the text from `end` on. -/
def strtolAuto (s : Bytes) : ℤ × Bytes :=
  let (neg,t) := signed (s.dropWhile isSpace)
  let (base,u) := autoBase t
  let digits := u.takeWhile (digitOf · < base)
  if digits = [] then (0,s)
  else
    let n : ℤ := baseValue base digits
    (clampLong (if neg then -n else n),u.drop digits.length)

example : strtolAuto (ascii " -0x1Fg") = (-31,ascii "g") := by decide
example : strtolAuto (ascii "0x") = (0,ascii "x") := by decide
example : strtolAuto (ascii "x1") = (0,ascii "x1") := by decide

theorem digitOf_digit {c : UInt8} (h : isDigit c) : digitOf c < 10 := by
  rw [digitOf,if_pos h]
  rw [isDigit,Bool.and_eq_true,decide_eq_true_eq,decide_eq_true_eq,UInt8.le_iff_toNat_le,
    UInt8.le_iff_toNat_le] at h
  have h57 : (57 : UInt8).toNat = 57 := rfl
  omega

theorem baseValue_digits {s : Bytes} (h : ∀ c ∈ s, isDigit c) : baseValue 10 s = digitsValue s := by
  induction s using List.reverseRecOn with
  | nil => rfl
  | append_singleton s c ih =>
    have ih := ih fun d hd => h d (List.mem_append_left _ hd)
    have hc := h c (List.mem_append_right _ (List.mem_singleton_self c))
    unfold baseValue digitsValue at ih ⊢
    rw [List.foldl_append,List.foldl_append,ih,List.foldl_cons,List.foldl_cons,List.foldl_nil,
      List.foldl_nil,digitOf,if_pos hc]

/-- A number other than zero does not start with the digit of an octal number. -/
theorem decimalNat_head {n : ℕ} (hn : n ≠ 0) : (decimalNat n).head? ≠ some 48 := by
  rw [decimalNat,if_neg hn,List.head?_reverse,List.getLast?_map]
  have hne : Nat.digits 10 n ≠ [] := Nat.digits_ne_nil_iff_ne_zero.mpr hn
  rw [List.getLast?_eq_getLast_of_ne_nil hne,Option.map_some,ne_eq,Option.some_inj]
  have hlast := Nat.getLast_digit_ne_zero 10 hn
  have hlt : (Nat.digits 10 n).getLast hne < 10 :=
    Nat.digits_lt_base (by norm_num) (List.getLast_mem hne)
  generalize (Nat.digits 10 n).getLast hne = d at hlast hlt
  interval_cases d
  · exact absurd rfl hlast
  all_goals decide

theorem autoBase_decimalNat (n : ℕ) :
    ∃ base, autoBase (decimalNat n) = (base,decimalNat n) ∧
      (decimalNat n).takeWhile (digitOf · < base) = decimalNat n ∧
      baseValue base (decimalNat n) = n := by
  by_cases hn : n = 0
  · subst hn
    exact ⟨8,by decide,by decide,by decide⟩
  · refine ⟨10,?_,List.takeWhile_eq_self_iff.mpr fun c hc => ?_,?_⟩
    · have hhead := decimalNat_head hn
      generalize decimalNat n = s at hhead
      unfold autoBase
      split
      · exact absurd rfl hhead
      · exact absurd rfl hhead
      · rfl
    · exact decide_eq_true (digitOf_digit (decimalNat_isDigit hc))
    · rw [baseValue_digits fun c hc => decimalNat_isDigit hc,digitsValue_decimalNat]

/-- What `%d` writes is read back, to its end. -/
theorem strtolAuto_decimal {z : ℤ} (h : -2^31 ≤ z ∧ z < 2^31) : strtolAuto (decimal z) = (z,[]) := by
  obtain ⟨base,hbase,htake,hvalue⟩ := autoBase_decimalNat z.natAbs
  have hclamp : clampLong z = z := by
    unfold clampLong
    omega
  have hsign : signed ((decimal z).dropWhile isSpace) = (decide (z < 0),decimalNat z.natAbs) := by
    by_cases hneg : z < 0
    · rw [decimal,if_pos hneg,List.dropWhile_cons_of_neg (by decide),decide_eq_true hneg]
      rfl
    · rw [decimal,if_neg hneg,decide_eq_false hneg]
      obtain ⟨c,s,hs,hc⟩ := decimalNat_cons z.natAbs
      rw [hs,List.dropWhile_cons_of_neg (by simp [isSpace_of_isDigit hc])]
      unfold signed
      split
      · rename_i heq
        exact absurd ((List.cons.inj heq).1 ▸ hc) (by decide)
      · rename_i heq
        exact absurd ((List.cons.inj heq).1 ▸ hc) (by decide)
      · rfl
  have hz : (if decide (z < 0) = true then -(z.natAbs : ℤ) else z.natAbs) = z := by
    split
    · rename_i hneg
      have := of_decide_eq_true hneg
      omega
    · rename_i hneg
      have := of_decide_eq_false (Bool.eq_false_iff.mpr hneg)
      omega
  rw [strtolAuto,hsign]
  simp only [hbase,htake,hvalue,if_neg (decimalNat_ne_nil _)]
  rw [hz,hclamp,List.drop_length]

end CText
