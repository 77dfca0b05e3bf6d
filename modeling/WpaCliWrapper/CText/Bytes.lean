import Mathlib.Data.List.TakeWhile

/-! Byte texts as C programs see them: the NUL-terminated view of a buffer, stores into a
buffer of fixed size, and the case-insensitive comparisons of the C library. -/
namespace CText

abbrev Bytes := List UInt8

/-- The bytes of an ASCII literal. -/
def ascii (s : String) : Bytes := s.toList.map fun c => c.toNat.toUInt8

/-- A NUL-terminated argument: its bytes, none of which is NUL. -/
structure CString where
  bytes : Bytes
  noNul : 0 ∉ bytes

/-- The C string found at the start of a buffer. -/
def cstr (buf : Bytes) : Bytes := buf.takeWhile (· != 0)

theorem cstr_eq_self {s : Bytes} (h : 0 ∉ s) : cstr s = s := by
  apply List.takeWhile_eq_self_iff.mpr
  intro x hx
  have hne : x ≠ 0 := fun he => h (he ▸ hx)
  simpa using hne

/-- A terminator ends the string, whatever the rest of the buffer holds. -/
theorem cstr_append_nul (s rest : Bytes) : cstr (s ++ 0 :: rest) = cstr s := by
  induction s with
  | nil => simp [cstr]
  | cons x s ih =>
    by_cases hx : x = 0
    · simp [cstr,hx]
    · simpa [cstr,hx] using ih

theorem cstr_noNul (s : Bytes) : 0 ∉ cstr s := by
  intro h
  have hp := List.mem_takeWhile_imp h
  simp at hp

/-- Cutting a buffer and cutting its C string leave the same C string. -/
theorem cstr_take (s : Bytes) (n : ℕ) : cstr (s.take n) = (cstr s).take n := by
  induction s generalizing n with
  | nil => simp [cstr]
  | cons x s ih =>
    cases n with
    | zero => simp [cstr]
    | succ n =>
      by_cases hx : x = 0
      · simp [cstr,hx]
      · simpa [cstr,hx] using ih n

/-- The bytes of a buffer after a write at its start; the rest keeps its contents. -/
def overwrite (buf data : Bytes) : Bytes := data ++ buf.drop data.length

theorem overwrite_length {buf data : Bytes} (h : data.length ≤ buf.length) :
    (overwrite buf data).length = buf.length := by
  simp [overwrite]
  omega

/-- The store `buf[i] = '\0'` of a C program. -/
def terminate (buf : Bytes) (i : ℕ) : Bytes := buf.set i 0

@[simp] theorem terminate_length (buf : Bytes) (i : ℕ) : (terminate buf i).length = buf.length := by
  simp [terminate]

/-- `text` stands at the start of the buffer and is closed by a NUL inside it. -/
def Holds (buf text : Bytes) : Prop := ∃ rest, buf = text ++ 0 :: rest

theorem Holds.cstr_eq {buf text : Bytes} (h : Holds buf text) : cstr buf = cstr text := by
  obtain ⟨rest,rfl⟩ := h
  exact cstr_append_nul text rest

/-- Writing a text that leaves room for the NUL and then the NUL after it. -/
theorem holds_terminate_overwrite {buf data : Bytes} (h : data.length < buf.length) :
    Holds (terminate (overwrite buf data) data.length) data := by
  obtain ⟨x,rest,hx⟩ : ∃ x rest, buf.drop data.length = x :: rest := by
    cases hd : buf.drop data.length with
    | nil => have hl := congrArg List.length hd; simp at hl; omega
    | cons x rest => exact ⟨x,rest,rfl⟩
  refine ⟨rest,?_⟩
  simp [terminate,overwrite,hx]

/-- What `snprintf` stores in a buffer of `size` bytes: a prefix that leaves room for the NUL. -/
def clip (size : ℕ) (text : Bytes) : Bytes := text.take (size-1)

theorem clip_eq_self {size : ℕ} {text : Bytes} (h : text.length < size) :
    clip size text = text := List.take_of_length_le (by omega)

theorem clip_length_lt {size : ℕ} (text : Bytes) (h : 0 < size) :
    (clip size text).length < size := by
  simp [clip]
  omega

def toLower (c : UInt8) : UInt8 := if 65 ≤ c ∧ c ≤ 90 then c+32 else c

theorem toLower_eq {c d : UInt8} (h : toLower c = d) (hd : d < 97) : c = d := by
  unfold toLower at h
  split at h
  · rename_i hc
    simp only [UInt8.le_iff_toNat_le,UInt8.lt_iff_toNat_lt] at hc hd
    have h65 : (65 : UInt8).toNat = 65 := rfl
    have h90 : (90 : UInt8).toNat = 90 := rfl
    have h97 : (97 : UInt8).toNat = 97 := rfl
    have hsum : (c+32).toNat = c.toNat+32 := by
      rw [UInt8.toNat_add]
      have h32 : (32 : UInt8).toNat = 32 := rfl
      omega
    rw [h] at hsum
    omega
  · exact h

/-- `strcasecmp(a, b) == 0`. -/
def eqCase (a b : Bytes) : Bool := a.map toLower == b.map toLower

/-- `strncasecmp(s, pre, strlen(pre)) == 0`. -/
def hasPrefixCase (s pre : Bytes) : Bool := (pre.map toLower).isPrefixOf (s.map toLower)

/-- `strcmp`: the difference of the first characters that differ. -/
def strcmp : Bytes → Bytes → ℤ
  | [], [] => 0
  | [], d :: _ => -d.toNat
  | c :: _, [] => c.toNat
  | c :: s, d :: t => if c = d then strcmp s t else c.toNat-d.toNat

theorem strcmp_neg (s t : Bytes) : strcmp s t = -strcmp t s := by
  induction s generalizing t with
  | nil => cases t <;> simp [strcmp]
  | cons c s ih =>
    cases t with
    | nil => simp [strcmp]
    | cons d t =>
      by_cases h : c = d
      · rw [strcmp,strcmp,if_pos h,if_pos h.symm]
        exact ih t
      · rw [strcmp,strcmp,if_neg h,if_neg (Ne.symm h)]
        omega

theorem strcmp_cons_le_iff {c d : UInt8} {s t : Bytes} :
    strcmp (c :: s) (d :: t) ≤ 0 ↔ c < d ∨ c = d ∧ strcmp s t ≤ 0 := by
  rw [strcmp,UInt8.lt_iff_toNat_lt]
  by_cases h : c = d
  · simp [h]
  · have hne : c.toNat ≠ d.toNat := fun heq => h (UInt8.toNat_inj.mp heq)
    rw [if_neg h]
    simp only [h,false_and,or_false]
    omega

theorem strcmp_cons_nil {c : UInt8} {s : Bytes} (h : 0 ∉ c :: s) : 0 < strcmp (c :: s) [] := by
  have hne : c.toNat ≠ (0 : UInt8).toNat := fun heq =>
    h (UInt8.toNat_inj.mp heq ▸ List.mem_cons_self)
  have hpos : 0 < c.toNat := Nat.pos_of_ne_zero hne
  rw [strcmp]
  omega

/-- Strings without a NUL inside are ordered. -/
theorem strcmp_trans {s t u : Bytes} (hs : 0 ∉ s) (ht : 0 ∉ t) (hst : strcmp s t ≤ 0)
    (htu : strcmp t u ≤ 0) : strcmp s u ≤ 0 := by
  induction s generalizing t u with
  | nil => cases u <;> simp [strcmp]
  | cons c s ih =>
    cases t with
    | nil => exact absurd hst (Int.not_le.mpr (strcmp_cons_nil hs))
    | cons d t =>
      cases u with
      | nil => exact absurd htu (Int.not_le.mpr (strcmp_cons_nil ht))
      | cons e u =>
        rw [strcmp_cons_le_iff] at hst htu ⊢
        have hs' : 0 ∉ s := fun h => hs (List.mem_cons_of_mem c h)
        have ht' : 0 ∉ t := fun h => ht (List.mem_cons_of_mem d h)
        obtain hcd | ⟨rfl,hst⟩ := hst <;> obtain hde | ⟨rfl,htu⟩ := htu
        · exact .inl (UInt8.lt_trans hcd hde)
        · exact .inl hcd
        · exact .inl hde
        · exact .inr ⟨rfl,ih hs' ht' hst htu⟩

end CText
