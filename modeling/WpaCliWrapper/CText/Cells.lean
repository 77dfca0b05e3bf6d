import WpaCliWrapper.CText.Bytes
import WpaCliWrapper.CText.Substring

/-! Arrays that check every access, and the loops of C that move a pointer over one: a pointer
is a position of its array. -/
namespace CText

variable {α ε : Type*} (fault : ε)

/-- The load `cells[i]`. -/
def load (cells : List α) (i : ℕ) : Except ε α := cells[i]?.elim (.error fault) .ok

/-- The store `cells[i] = x`. -/
def store (cells : List α) (i : ℕ) (x : α) : Except ε (List α) :=
  if i < cells.length then .ok (cells.set i x) else .error fault

/-- The loop `while (p(*pos)) ++pos;` over the cells from the pointer on. -/
def scan (p : α → Bool) : List α → ℕ → Except ε ℕ
  | [], _ => .error fault
  | x :: cells, pos => if p x then scan p cells (pos+1) else .ok pos

/-- The same loop, from a position of the whole array. -/
def advance (p : α → Bool) (cells : List α) (pos : ℕ) : Except ε ℕ :=
  scan fault p (cells.drop pos) pos

variable {fault}

section Bind
universe u v
variable {β γ : Type u} {η : Type v}

theorem ok_bind (a : β) (f : β → Except η γ) : (.ok a >>= f) = f a := rfl

theorem error_bind (e : η) (f : β → Except η γ) : (.error e >>= f) = .error e := rfl

theorem exists_map_iff (x : Except η β) (f : β → γ) :
    (∃ r, (do return f (← x)) = (.ok r : Except η γ)) ↔ ∃ a, x = .ok a := by
  cases x <;> simp

end Bind

theorem load_append (l : List α) (x : α) (r : List α) :
    load fault (l ++ x :: r) l.length = .ok x := by
  simp [load]

theorem store_append (l : List α) (x : α) (r : List α) (y : α) :
    store fault (l ++ x :: r) l.length y = .ok (l ++ y :: r) := by
  simp [store]

theorem store_full {cells : List α} {i : ℕ} (h : cells.length ≤ i) (y : α) :
    store fault cells i y = .error fault := if_neg (Nat.not_lt.mpr h)

theorem scan_append {p : α → Bool} {l : List α} {x : α} (hl : ∀ y ∈ l, p y) (hx : p x = false)
    (r : List α) (pos : ℕ) : scan fault p (l ++ x :: r) pos = .ok (pos+l.length) := by
  induction l generalizing pos with
  | nil => simp [scan,hx]
  | cons y l ih =>
    have hy : p y = true := hl y (by simp)
    have hpos : pos+1+l.length = pos+(y :: l).length := by rw [List.length_cons]; omega
    rw [List.cons_append,scan,if_pos hy,ih fun z hz => hl z (by simp [hz]),hpos]

/-- The pointer stops at the first cell that fails the test. -/
theorem advance_append (d : List α) {p : α → Bool} {l : List α} {x : α} (hl : ∀ y ∈ l, p y)
    (hx : p x = false) (r : List α) :
    advance fault p (d ++ (l ++ x :: r)) d.length = .ok (d.length+l.length) := by
  rw [advance,List.drop_left]
  exact scan_append hl hx r d.length

section Strings

/-- The string at a position: the cells up to the first NUL. -/
def readString (fault : ε) (cells : Bytes) (pos : ℕ) : Except ε Bytes := do
  let e ← advance fault (· != 0) cells pos
  return (cells.drop pos).take (e-pos)

/-- `strchr` for a character other than NUL: where it stands in the string at `pos`. -/
def strchr (fault : ε) (cells : Bytes) (pos : ℕ) (c : UInt8) : Except ε (Option ℕ) := do
  let e ← advance fault (fun x => x != 0 && x != c) cells pos
  return if (← load fault cells e) = c then some e else none

/-- `strstr` on the string at `pos`. -/
def strstrAt (fault : ε) (cells : Bytes) (pos : ℕ) (needle : Bytes) : Except ε (Option ℕ) := do
  return (strstr needle (← readString fault cells pos)).map (pos+·)

variable {body : Bytes} {pos : ℕ}

/-- A loop that ends at a NUL stays inside a text that is closed by one. -/
theorem advance_text {p : UInt8 → Bool} (hp : p 0 = false) (hpos : pos ≤ body.length) :
    advance fault p (body ++ [0]) pos = .ok (pos+((body.drop pos).takeWhile p).length) := by
  have hsplit := List.takeWhile_append_dropWhile (p := p) (l := body.drop pos)
  have hall : ∀ y ∈ (body.drop pos).takeWhile p, p y := fun y hy => List.mem_takeWhile_imp hy
  rw [advance,List.drop_append_of_le_length hpos]
  nth_rewrite 1 [← hsplit]
  cases hd : (body.drop pos).dropWhile p with
  | nil =>
    rw [List.append_nil]
    exact scan_append hall hp [] pos
  | cons x rest =>
    have hx := List.head_dropWhile_not p (l := body.drop pos) (by simp [hd])
    rw [List.append_assoc]
    exact scan_append hall (by simpa [hd] using hx) (rest ++ [0]) pos

/-- A NUL stored in a text, or over the one that closes it. -/
theorem store_text (hpos : pos ≤ body.length) :
    store fault (body ++ [0]) pos 0 = .ok (body.set pos 0 ++ [0]) := by
  rw [store,if_pos (by rw [List.length_append,List.length_singleton]; omega),List.set_append]
  split
  · rfl
  · have hlen : pos = body.length := by omega
    rw [hlen,Nat.sub_self,List.set_eq_of_length_le le_rfl]
    rfl

/-- Behind the text there is nothing to read. -/
theorem advance_past (p : UInt8 → Bool) :
    advance fault p (body ++ [0]) (body.length+1) = .error fault := by
  rw [advance,List.drop_of_length_le (by simp)]
  rfl

/-- A text in front of a NUL is its C string and the first NUL behind it. -/
theorem exists_cstr (text rest : Bytes) : ∃ rest', text ++ 0 :: rest = cstr text ++ 0 :: rest' := by
  induction text with
  | nil => exact ⟨rest,rfl⟩
  | cons x text ih =>
    by_cases hx : x = 0
    · exact ⟨text ++ 0 :: rest,by simp [cstr,hx]⟩
    · obtain ⟨rest',ih⟩ := ih
      refine ⟨rest',?_⟩
      rw [List.cons_append,ih]
      simp [cstr,hx]

/-- The string at a position inside a text that is closed by a NUL. -/
theorem exists_string (hpos : pos ≤ body.length) : ∃ d rest, d.length = pos ∧
    body ++ [0] = d ++ (cstr (body.drop pos) ++ 0 :: rest) := by
  obtain ⟨rest,hrest⟩ := exists_cstr (body.drop pos) []
  refine ⟨body.take pos,rest,List.length_take_of_le hpos,?_⟩
  rw [← hrest,← List.append_assoc,List.take_append_drop]

theorem readString_append (d text rest : Bytes) :
    readString fault (d ++ (text ++ 0 :: rest)) d.length = .ok (cstr text) := by
  obtain ⟨rest',hrest⟩ := exists_cstr text rest
  have hall : ∀ y ∈ cstr text, (y != 0) = true := fun y hy =>
    List.mem_takeWhile_imp (p := (· != 0)) hy
  rw [hrest,readString,advance_append d hall rfl rest',ok_bind,Nat.add_sub_cancel_left,List.drop_left,
    List.take_left]
  rfl

/-- What `strchr` runs over. -/
theorem forall_scanned {line : Bytes} {c : UInt8} (h0 : 0 ∉ line) (hno : c ∉ line) :
    ∀ y ∈ line, (y != 0 && y != c) = true := by
  intro y hy
  have hy0 : y ≠ 0 := fun heq => h0 (heq ▸ hy)
  have hyc : y ≠ c := fun heq => hno (heq ▸ hy)
  simp [hy0,hyc]

theorem strchr_none {d text rest : Bytes} {c : UInt8} (hc : c ≠ 0) (h0 : 0 ∉ text) (hno : c ∉ text) :
    strchr fault (d ++ (text ++ 0 :: rest)) d.length c = .ok none := by
  rw [strchr,advance_append d (forall_scanned h0 hno) rfl rest,ok_bind,← List.append_assoc,
    ← List.length_append,load_append,ok_bind,if_neg hc.symm]
  rfl

theorem strchr_some {d line rest : Bytes} {c : UInt8} (h0 : 0 ∉ line) (hno : c ∉ line) :
    strchr fault (d ++ (line ++ c :: rest)) d.length c = .ok (some (d.length+line.length)) := by
  rw [strchr,advance_append d (forall_scanned h0 hno) (by simp) rest,ok_bind,← List.append_assoc,
    ← List.length_append,load_append,ok_bind,if_pos rfl]
  rfl

variable (fault) in
/-- Looking for a character: the string does not have it, or it stands behind a line without it. -/
theorem strchr_cases {c : UInt8} (hc : c ≠ 0) (hpos : pos ≤ body.length) :
    (strchr fault (body ++ [0]) pos c = .ok none ∧ c ∉ cstr (body.drop pos)) ∨
      ∃ line more, cstr (body.drop pos) = line ++ c :: more ∧ c ∉ line ∧
        pos+line.length < body.length ∧
        strchr fault (body ++ [0]) pos c = .ok (some (pos+line.length)) := by
  obtain ⟨d,rest,hd,hbody⟩ := exists_string hpos
  have h0 := cstr_noNul (body.drop pos)
  by_cases hmem : c ∈ cstr (body.drop pos)
  · right
    obtain ⟨line,more,hline,hno⟩ := List.eq_append_cons_of_mem hmem
    have hlen : (cstr (body.drop pos)).length ≤ (body.drop pos).length :=
      (List.takeWhile_prefix _).length_le
    refine ⟨line,more,hline,hno,?_,?_⟩
    · rw [hline,List.length_append,List.length_cons,List.length_drop] at hlen
      omega
    · rw [hbody,hline,← hd,List.append_assoc]
      exact strchr_some (fun h => h0 (by rw [hline]; exact List.mem_append_left _ h)) hno
  · left
    rw [hbody,← hd]
    exact ⟨strchr_none hc (hd ▸ h0) (hd ▸ hmem),hd ▸ hmem⟩

theorem readString_text (hpos : pos ≤ body.length) :
    readString fault (body ++ [0]) pos = .ok (cstr (body.drop pos)) := by
  have hread : readString fault (body.take pos ++ (body.drop pos ++ 0 :: [])) (body.take pos).length =
      .ok (cstr (body.drop pos)) := readString_append _ _ _
  rwa [← List.append_assoc,List.take_append_drop,List.length_take_of_le hpos] at hread

theorem strstrAt_text (hpos : pos ≤ body.length) (needle : Bytes) :
    strstrAt fault (body ++ [0]) pos needle =
      .ok ((strstr needle (cstr (body.drop pos))).map (pos+·)) := by
  rw [strstrAt,readString_text hpos]
  rfl

theorem strstrAt_past (needle : Bytes) :
    strstrAt fault (body ++ [0]) (body.length+1) needle = .error fault := by
  rw [strstrAt,readString,advance_past]
  rfl

end Strings

end CText
