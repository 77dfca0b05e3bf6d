import WpaCliWrapper.Edit.Session

/-! What a completion does to the word at the cursor: it takes over what all candidates share, and
it loses none of them. -/
namespace WpaCliWrapper
open CText

/-- All of the strings start like this. -/
def Shared (c : List CString) (q : Bytes) : Prop := ∀ w ∈ c, q <+: w.bytes

/-- What becomes of a word, in a line with some cells left: a single candidate replaces it, with a
blank behind; of several candidates it takes over all that they share. -/
inductive Completes (room : ℕ) (c : List CString) (word : Bytes) : Bytes → Prop
  | none (h : Edit.filterStrings c word = []) : Completes room c word word
  | one (w : CString) (h : Edit.filterStrings c word = [w]) :
    Completes room c word ((w.bytes ++ [32]).take (word.length+room))
  | stuck (h : 2 ≤ (Edit.filterStrings c word).length)
    (no_more : ∀ q, Shared (Edit.filterStrings c word) q → q.length ≤ word.length) :
    Completes room c word word
  | more (new : Bytes) (h : 2 ≤ (Edit.filterStrings c word).length)
    (shared : Shared (Edit.filterStrings c word) new)
    (longest : ∀ q, Shared (Edit.filterStrings c word) q → q.length ≤ word.length+room → q <+: new)
    (none_lost : Edit.filterStrings c new = Edit.filterStrings c word) : Completes room c word new

section Words
variable {c : List CString} {first : CString} {others : List CString}

theorem shared_iff {q : Bytes} : Shared (first :: others) q ↔
    q <+: first.bytes.take (maxCommonLength first.bytes (others.map CString.bytes)) := by
  rw [prefix_common_iff,Shared,List.forall_mem_cons,List.forall_mem_map]

/-- A longer word that all candidates start with leaves the same candidates. -/
theorem filterStrings_eq {word new : Bytes} {first : CString}
    (hfirst : first ∈ Edit.filterStrings c word)
    (hlen : word.length ≤ new.length) (hnew : Shared (Edit.filterStrings c word) new) :
    Edit.filterStrings c new = Edit.filterStrings c word := by
  have hword : word.map toLower <+: new.map toLower := by
    have hstart := List.isPrefixOf_iff_prefix.mp (List.mem_filter.mp hfirst).2
    exact List.prefix_of_prefix_length_le hstart ((hnew first hfirst).map toLower)
      (by rwa [List.length_map,List.length_map])
  refine List.filter_congr fun w hw => ?_
  rw [Bool.eq_iff_iff,hasPrefixCase,hasPrefixCase,List.isPrefixOf_iff_prefix,
    List.isPrefixOf_iff_prefix]
  refine ⟨hword.trans,fun hstart => ?_⟩
  exact (hnew w (List.mem_filter.mpr ⟨hw,List.isPrefixOf_iff_prefix.mpr hstart⟩)).map toLower

theorem completes (l : Line) (c : List CString) :
    ∃ new, Completes (cmdBufLen-1-l.cursor.text.length) c (l.cursor.word isSpaceChar) new ∧
      (l.complete c).cursor = l.cursor.replaceWord isSpaceChar new := by
  set word := l.cursor.word isSpaceChar with hword
  have hsame : l.cursor.replaceWord isSpaceChar word = l.cursor := by
    rw [Cursor.replaceWord,hword,Cursor.before_word]
  cases hfound : Edit.filterStrings c word with
  | nil =>
    have hnone : l.completion c = none := by simp only [Line.completion,← hword,hfound]
    exact ⟨word,.none hfound,by rw [Line.complete_none hnone,hsame]⟩
  | cons first others =>
    have hfirst : first ∈ Edit.filterStrings c word := by
      rw [hfound]
      exact List.mem_cons_self
    have hlong : others ≠ [] → 2 ≤ (Edit.filterStrings c word).length := by
      intro hne
      rw [hfound,List.length_cons]
      have := List.length_pos_iff.mpr hne
      omega
    set n := maxCommonLength first.bytes (others.map CString.bytes) with hn
    have hle : n ≤ first.bytes.length := maxCommonLength_le _ _
    by_cases hstuck : n ≤ word.length ∧ others ≠ []
    · have hnone : l.completion c = none := by
        simp only [Line.completion,← hword,hfound,← hn,if_pos hstuck]
      refine ⟨word,.stuck (hlong hstuck.2) fun q hq => ?_,by rw [Line.complete_none hnone,hsame]⟩
      rw [hfound,shared_iff] at hq
      have hlen := hq.length_le
      rw [List.length_take_of_le hle] at hlen
      omega
    · set end_ := word.length+(cmdBufLen-1-l.cursor.text.length) with hend
      have hsome : l.completion c = some ((first.bytes.take n).take end_ ++
          if others = [] ∧ n < end_ then [32] else []) := by
        simp only [Line.completion,← hword,hfound,← hn,if_neg hstuck,← hend]
      refine ⟨_,?_,Line.complete_some hsome⟩
      by_cases hone : others = []
      · have hall : n = first.bytes.length := by rw [hn,hone]; rfl
        have htake : (first.bytes.take n).take end_ ++
            (if others = [] ∧ n < end_ then [32] else []) = (first.bytes ++ [32]).take end_ := by
          rw [hall,List.take_length,List.take_append]
          congr 1
          by_cases hlt : first.bytes.length < end_
          · rw [if_pos ⟨hone,hlt⟩,List.take_of_length_le (by rw [List.length_singleton]; omega)]
          · rw [if_neg (by simp [hlt]),Nat.sub_eq_zero_of_le (by omega),List.take_zero]
        rw [htake]
        exact .one first (by rw [hfound,hone])
      · have hmore : word.length < n := by
          by_contra hge
          exact hstuck ⟨by omega,hone⟩
        rw [if_neg (by simp [hone]),List.append_nil]
        have hshared : Shared (Edit.filterStrings c word) ((first.bytes.take n).take end_) := by
          rw [hfound,shared_iff]
          exact List.take_prefix _ _
        refine .more _ (hlong hone) hshared (fun q hq hlen => ?_)
          (filterStrings_eq hfirst ?_ hshared)
        · rw [hfound,shared_iff] at hq
          exact List.prefix_take_iff.mpr ⟨hq,hlen⟩
        · rw [List.length_take,List.length_take_of_le hle]
          omega

end Words

section Runs

/-- The text of the line, up to its cursor and from it on. -/
def Edit.halves (s : Edit) : Bytes × Bytes :=
  (s.cmdbuf.take s.cmdbufPos,(s.cmdbuf.take s.cmdbufLen).drop s.cmdbufPos)

theorem halves_shows {s : Edit} {p : Prompt} (h : s.Shows p) :
    s.halves = (p.line.cursor.before,p.line.cursor.after) := by
  obtain ⟨rest,hrest⟩ := h.line.cells_eq
  have htext : s.cmdbuf.take s.cmdbufLen = p.line.cursor.text := by
    rw [hrest,h.line.len_eq,← List.append_assoc]
    exact List.take_left
  have hbefore : s.cmdbuf.take s.cmdbufPos = p.line.cursor.before := by
    rw [hrest,h.line.pos_eq,List.take_left]
  rw [Edit.halves,htext,hbefore,h.line.pos_eq,Cursor.text,List.drop_left]

/-- In any state that is reached, a completion changes the word in front of the cursor only, and
what it becomes is what the candidates share. -/
theorem complete_shares (cb : EditCallbacks) (file : Bytes) (inputs : List (Option UInt8))
    (c : List CString) : ∃ s s' d word new after,
      (editInit file).editRun cb inputs = .ok s ∧ s.completeWith c = .ok s' ∧
      s.halves = (d ++ word,after) ∧ s'.halves = (d ++ new,after) ∧
      32 ∉ word ∧ (∀ h : d ≠ [], d.getLast h = 32) ∧
      Completes (cmdBufLen-1-(d ++ word ++ after).length) c word new := by
  obtain ⟨s,hrun,hs⟩ := editRun_shows cb (editInit_shows file) inputs
  obtain ⟨s',hcomplete,hs'⟩ := completeWith_shows hs c
  generalize (Prompt.init file).run cb inputs = p at hs hs'
  obtain ⟨new,hnew,hline⟩ := completes p.line c
  have hbefore := p.line.cursor.before_word isSpaceChar
  refine ⟨s,s',p.line.cursor.before.rdropWhile (!isSpaceChar ·),p.line.cursor.word isSpaceChar,new,
    p.line.cursor.after,hrun,hcomplete,?_,?_,?_,?_,?_⟩
  · rw [halves_shows hs,hbefore]
  · rw [halves_shows hs']
    change ((p.line.complete c).cursor.before,(p.line.complete c).cursor.after) = _
    rw [hline]
    rfl
  · intro hmem
    have hword := List.mem_rtakeWhile_imp hmem
    simp [isSpaceChar] at hword
  · intro hne
    have hlast := List.rdropWhile_last_not (!isSpaceChar ·) p.line.cursor.before hne
    simpa [isSpaceChar] using hlast
  · rw [hbefore]
    exact hnew

end Runs

end WpaCliWrapper
