import Mathlib.Data.List.TakeWhile

/-! Texts as words between delimiters: the tokens that successive `strtok_r` calls return,
and texts written from words with one separator in front of each. -/
namespace CText

variable {α : Type*} (p : α → Bool)

/-- The maximal runs of elements that are not delimiters, in order. -/
def words (l : List α) : List (List α) := (l.splitOnP p).filter (!·.isEmpty)

/-- One separator in front of every word. -/
def spaced (sep : α) (ws : List (List α)) : List α := ws.flatMap (sep :: ·)

/-- A word is not empty and contains no delimiter. -/
def IsWord (w : List α) : Prop := w ≠ [] ∧ ∀ x ∈ w, p x = false

instance (w : List α) : Decidable (IsWord p w) :=
  inferInstanceAs (Decidable (w ≠ [] ∧ ∀ x ∈ w, p x = false))

/-- Words joined by single separators, with nothing before the first or after the last. -/
def SingleSpaced (sep : α) (l : List α) : Prop :=
  ∃ ws, ws ≠ [] ∧ (∀ w ∈ ws, IsWord p w) ∧ spaced sep ws = sep :: l

@[simp] theorem words_nil : words p ([] : List α) = [] := by simp [words]

@[simp] theorem spaced_nil (sep : α) : spaced sep [] = [] := rfl

@[simp] theorem spaced_cons (sep : α) (w : List α) (ws : List (List α)) :
    spaced sep (w :: ws) = sep :: (w ++ spaced sep ws) := by simp [spaced]

theorem spaced_append (sep : α) (vs ws : List (List α)) :
    spaced sep (vs ++ ws) = spaced sep vs ++ spaced sep ws := by simp [spaced]

variable {p}

theorem words_append_cons (a b : List α) {s : α} (hs : p s) :
    words p (a ++ s :: b) = words p a ++ words p b := by
  simp [words,List.splitOnP_append_cons _ _ hs]

theorem words_cons_delim (b : List α) {s : α} (hs : p s) : words p (s :: b) = words p b := by
  simpa using words_append_cons [] b hs

theorem words_of_word {w : List α} (h : IsWord p w) : words p w = [w] := by
  rw [words,List.splitOnP_eq_singleton (fun x hx => by simp [h.2 x hx])]
  simp [h.1]

theorem words_word_cons {w b : List α} {s : α} (h : IsWord p w) (hs : p s) :
    words p (w ++ s :: b) = w :: words p b := by
  simp [words_append_cons _ _ hs,words_of_word h]

theorem isWord_takeWhile {x : α} {l : List α} (hx : p x = false) :
    IsWord p ((x :: l).takeWhile (!p ·)) := by
  refine ⟨by simp [hx],fun y hy => ?_⟩
  simpa using List.mem_takeWhile_imp hy

/-- Every text is empty, starts with a delimiter, is one word, or starts with a word and the
delimiter that ends it. -/
theorem words_induction {motive : List α → Prop} (nil : motive [])
    (delim : ∀ s l, p s → motive l → motive (s :: l)) (last : ∀ w, IsWord p w → motive w)
    (word : ∀ w s l, IsWord p w → p s → motive l → motive (w ++ s :: l)) (l : List α) :
    motive l := by
  induction hn : l.length using Nat.strong_induction_on generalizing l with
  | _ n ih =>
    cases l with
    | nil => exact nil
    | cons x l =>
      cases hx : p x with
      | true => exact delim x l hx (ih l.length (by simp [← hn]) l rfl)
      | false =>
        have hw := isWord_takeWhile (l := l) hx
        have hsplit := List.takeWhile_append_dropWhile (p := (!p ·)) (l := x :: l)
        cases hd : (x :: l).dropWhile (!p ·) with
        | nil =>
          rw [hd,List.append_nil] at hsplit
          exact last _ (hsplit ▸ hw)
        | cons s b =>
          have hs : p s := by
            have hn := List.head_dropWhile_not (!p ·) (l := x :: l) (by simp [hd])
            simpa [hd] using hn
          have hlen := congrArg List.length hsplit
          have hpos := List.length_pos_iff.mpr hw.1
          rw [hd] at hsplit hlen
          rw [← hsplit]
          refine word _ s b hw hs (ih b.length ?_ b rfl)
          simp only [List.length_append,List.length_cons] at hlen hn
          omega

/-- A text is blank, or leading delimiters are followed by its first word. -/
theorem first_word_cases (l : List α) :
    (∀ x ∈ l, p x) ∨ ∃ pre w, (∀ x ∈ pre, p x) ∧ IsWord p w ∧
      (l = pre ++ w ∨ ∃ s rest, p s ∧ l = pre ++ (w ++ s :: rest)) := by
  induction l using words_induction (p := p) with
  | nil => simp
  | delim s l hs ih =>
    have hcons : ∀ {pre : List α}, (∀ x ∈ pre, p x) → ∀ x ∈ s :: pre, p x := by
      intro pre hpre x hx
      rcases List.mem_cons.mp hx with rfl | hx
      · exact hs
      · exact hpre x hx
    rcases ih with hl | ⟨pre,w,hpre,hw,rfl | ⟨d,rest,hd,rfl⟩⟩
    · exact .inl (hcons hl)
    · exact .inr ⟨s :: pre,w,hcons hpre,hw,.inl rfl⟩
    · exact .inr ⟨s :: pre,w,hcons hpre,hw,.inr ⟨d,rest,hd,rfl⟩⟩
  | last w hw => exact .inr ⟨[],w,by simp,hw,.inl rfl⟩
  | word w s l hw hs _ => exact .inr ⟨[],w,by simp,hw,.inr ⟨s,l,hs,rfl⟩⟩

/-- Skipping delimiters in front of a word. -/
theorem dropWhile_delims_append {pre w : List α} (hpre : ∀ x ∈ pre, p x) (hw : IsWord p w)
    (rest : List α) : (pre ++ (w ++ rest)).dropWhile p = w ++ rest := by
  obtain ⟨x,w,rfl⟩ := List.exists_cons_of_ne_nil hw.1
  rw [List.dropWhile_append_of_pos hpre,List.cons_append,
    List.dropWhile_cons_of_neg (by simp [hw.2 x (by simp)])]

theorem takeWhile_word_append {w : List α} (hw : IsWord p w) {s : α} (hs : p s) (rest : List α) :
    (w ++ s :: rest).takeWhile (!p ·) = w := by
  rw [List.takeWhile_append_of_pos fun x hx => by simp [hw.2 x hx],
    List.takeWhile_cons_of_neg (by simp [hs]),List.append_nil]

theorem dropWhile_word_append {w : List α} (hw : IsWord p w) {s : α} (hs : p s) (rest : List α) :
    (w ++ s :: rest).dropWhile (!p ·) = s :: rest := by
  rw [List.dropWhile_append_of_pos fun x hx => by simp [hw.2 x hx],
    List.dropWhile_cons_of_neg (by simp [hs])]

theorem takeWhile_word {w : List α} (hw : IsWord p w) : w.takeWhile (!p ·) = w :=
  List.takeWhile_eq_self_iff.mpr fun x hx => by simp [hw.2 x hx]

theorem dropWhile_word {w : List α} (hw : IsWord p w) : w.dropWhile (!p ·) = [] :=
  List.dropWhile_eq_nil_iff.mpr fun x hx => by simp [hw.2 x hx]

theorem words_of_delims {l : List α} (h : ∀ x ∈ l, p x) : words p l = [] := by
  induction l with
  | nil => simp
  | cons x l ih =>
    rw [words_cons_delim _ (h x (by simp))]
    exact ih fun y hy => h y (by simp [hy])

theorem words_delims_append {pre : List α} (hpre : ∀ x ∈ pre, p x) (l : List α) :
    words p (pre ++ l) = words p l := by
  induction pre with
  | nil => rfl
  | cons x pre ih =>
    rw [List.cons_append,words_cons_delim _ (hpre x (by simp))]
    exact ih fun y hy => hpre y (by simp [hy])

theorem isWord_of_mem_words {l w : List α} (h : w ∈ words p l) : IsWord p w := by
  induction l using words_induction (p := p) with
  | nil => simp at h
  | delim s l hs ih => exact ih (by rwa [words_cons_delim _ hs] at h)
  | last v hv =>
    rw [words_of_word hv,List.mem_singleton] at h
    exact h ▸ hv
  | word v s l hv hs ih =>
    rw [words_word_cons hv hs,List.mem_cons] at h
    rcases h with rfl | h
    · exact hv
    · exact ih h

theorem filter_isWord {w : List α} (h : IsWord p w) : w.filter (!p ·) = w := by
  apply List.filter_eq_self.mpr
  intro x hx
  simp [h.2 x hx]

/-- The words hold exactly the elements that are not delimiters, in order. -/
theorem flatten_words (l : List α) : (words p l).flatten = l.filter (!p ·) := by
  induction l using words_induction (p := p) with
  | nil => simp
  | delim s l hs ih => simp [words_cons_delim _ hs,ih,hs]
  | last w hw => simp [words_of_word hw,filter_isWord hw]
  | word w s l hw hs ih =>
    simp [words_word_cons hw hs,ih,List.filter_append,filter_isWord hw,hs]

theorem mem_of_mem_words {l w : List α} (h : w ∈ words p l) {x : α} (hx : x ∈ w) : x ∈ l := by
  have hflat : x ∈ (words p l).flatten := List.mem_flatten.mpr ⟨w,h,hx⟩
  rw [flatten_words] at hflat
  exact (List.mem_filter.mp hflat).1

theorem words_eq_nil_iff (l : List α) : words p l = [] ↔ ∀ x ∈ l, p x := by
  refine ⟨fun h x hx => ?_,words_of_delims⟩
  have hf := flatten_words (p := p) l
  rw [h,List.flatten_nil,eq_comm,List.filter_eq_nil_iff] at hf
  simpa using hf x hx

/-- Separators in front of texts split them into the words of each. -/
theorem words_append_spaced {sep : α} (hs : p sep) (a : List α) (ws : List (List α)) :
    words p (a ++ spaced sep ws) = words p a ++ ws.flatMap (words p) := by
  induction ws generalizing a with
  | nil => simp
  | cons w ws ih =>
    rw [spaced_cons,words_append_cons _ _ hs,ih w]
    simp

theorem flatMap_words {ws : List (List α)} (h : ∀ w ∈ ws, IsWord p w) :
    ws.flatMap (words p) = ws := by
  induction ws with
  | nil => rfl
  | cons w ws ih =>
    rw [List.flatMap_cons,words_of_word (h w (by simp)),ih fun v hv => h v (by simp [hv])]
    rfl

theorem words_spaced {sep : α} (hs : p sep) {ws : List (List α)} (h : ∀ w ∈ ws, IsWord p w) :
    words p (spaced sep ws) = ws := by
  simpa [flatMap_words h] using words_append_spaced hs [] ws

/-- Words with a separator behind each are split again. -/
theorem words_terminated {sep : α} (hs : p sep) {ws : List (List α)} (h : ∀ w ∈ ws, IsWord p w) :
    words p (ws.flatMap (· ++ [sep])) = ws := by
  induction ws with
  | nil => exact words_nil p
  | cons w ws ih =>
    rw [List.flatMap_cons,List.append_assoc,List.singleton_append,
      words_word_cons (h w List.mem_cons_self) hs,ih fun v hv => h v (List.mem_cons_of_mem _ hv)]

/-- A field without delimiters is one word, or none if it is empty. -/
theorem words_field {w : List α} (h : ∀ x ∈ w, p x = false) :
    words p w = if w = [] then [] else [w] := by
  split
  · rename_i hnil
    rw [hnil,words_nil]
  · rename_i hne
    exact words_of_word ⟨hne,h⟩

/-- Writing the words of a text with single separators gives the text back exactly when it
is single-spaced. -/
theorem spaced_words_iff {sep : α} (hs : p sep) (l : List α) :
    spaced sep (words p l) = sep :: l ↔ SingleSpaced p sep l := by
  constructor
  · intro h
    refine ⟨words p l,?_,fun w hw => isWord_of_mem_words hw,h⟩
    intro hnil
    simp [hnil] at h
  · rintro ⟨ws,-,hws,h⟩
    rw [← h,← words_cons_delim l hs,← h,words_spaced hs hws]

/-- Writing the words of a text with single separators never needs more than one byte more. -/
theorem length_spaced_words (sep : α) (l : List α) :
    (spaced sep (words p l)).length ≤ l.length+1 := by
  induction l using words_induction (p := p) with
  | nil => simp
  | delim s l hs ih =>
    rw [words_cons_delim _ hs,List.length_cons]
    omega
  | last w hw => simp [words_of_word hw]
  | word w s l hw hs ih =>
    rw [words_word_cons hw hs,spaced_cons]
    simp only [List.length_cons,List.length_append]
    omega

/-- Splitting texts into their words never needs more room when they are written again. -/
theorem length_spaced_flatMap (sep : α) (ts : List (List α)) :
    (spaced sep (ts.flatMap (words p))).length ≤ (spaced sep ts).length := by
  induction ts with
  | nil => simp
  | cons t ts ih =>
    have ht := length_spaced_words (p := p) sep t
    simp only [List.flatMap_cons,spaced_append,spaced_cons,List.length_cons,List.length_append]
    omega

/-- With more delimiters the words of a text are the words of its words. -/
theorem words_refine {q : α → Bool} (h : ∀ x, q x → p x) (l : List α) :
    words p l = (words q l).flatMap (words p) := by
  induction l using words_induction (p := q) with
  | nil => simp
  | delim s l hs ih => rw [words_cons_delim _ hs,words_cons_delim _ (h s hs),ih]
  | last w hw => simp [words_of_word hw]
  | word w s l hw hs ih => rw [words_word_cons hw hs,words_append_cons _ _ (h s hs),ih,List.flatMap_cons]

/-- Only the delimiters that occur in a text matter. -/
theorem words_congr {q : α → Bool} {l : List α} (h : ∀ x ∈ l, p x = q x) :
    words p l = words q l := by
  induction l using words_induction (p := q) with
  | nil => simp
  | delim s l hs ih =>
    rw [words_cons_delim _ hs,words_cons_delim _ ((h s (by simp)).trans hs)]
    exact ih fun x hx => h x (by simp [hx])
  | last w hw => rw [words_of_word hw,words_of_word ⟨hw.1,fun x hx => (h x hx).trans (hw.2 x hx)⟩]
  | word w s l hw hs ih =>
    have hw' : IsWord p w := ⟨hw.1,fun x hx => (h x (by simp [hx])).trans (hw.2 x hx)⟩
    rw [words_word_cons hw hs,words_word_cons hw' ((h s (by simp)).trans hs),
      ih fun x hx => h x (by simp [hx])]

theorem length_spaced_sublist (sep : α) {vs ws : List (List α)} (h : vs.Sublist ws) :
    (spaced sep vs).length ≤ (spaced sep ws).length := by
  induction h with
  | slnil => simp
  | cons w _ ih => simp only [spaced_cons,List.length_cons,List.length_append]; omega
  | cons_cons w _ ih => simp only [spaced_cons,List.length_cons,List.length_append]; omega

/-- A text that ends in a word loses part of that word when it is cut. -/
theorem length_flatten_words_take {l : List α} {x : α} (hx : l.getLast? = some x)
    (hp : p x = false) {n : ℕ} (hn : n < l.length) :
    (words p (l.take n)).flatten.length < (words p l).flatten.length := by
  obtain ⟨pre,rfl⟩ := List.getLast?_eq_some_iff.mp hx
  have hn : n ≤ pre.length := by simp at hn; omega
  rw [List.take_append_of_le_length hn,flatten_words,flatten_words,List.filter_append]
  have hle := ((List.take_sublist n pre).filter (!p ·)).length_le
  simp only [List.length_append,List.filter_cons,hp]
  simp
  omega

theorem length_flatten_words_take_le (l : List α) (n : ℕ) :
    (words p (l.take n)).flatten.length ≤ (words p l).flatten.length := by
  rw [flatten_words,flatten_words]
  exact ((List.take_sublist n l).filter (!p ·)).length_le

end CText
