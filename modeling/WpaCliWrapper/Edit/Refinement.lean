import WpaCliWrapper.Edit.Shown

/-! No input leads the editor outside an array, and after every input the arrays show what the
prompt has become. -/
namespace WpaCliWrapper
open CText

section Reading
variable {r : KeyReader}

theorem lastChar_ne_zero {c : UInt8} (h : c = 126 ∨ 65 ≤ c ∧ c ≤ 90) : c ≠ 0 := by
  rintro rfl
  revert h
  decide

theorem ShowsSeq.none_shows {escBuf : Bytes} (h : escBuf.length = 7) :
    ShowsSeq ⟨none,escBuf⟩ none := ⟨h,rfl,fun _ hq => by cases hq⟩

theorem ShowsSeq.start_shows {escBuf : Bytes} (h : escBuf.length = 7) :
    ShowsSeq ⟨some 0,escBuf⟩ (some .start) :=
  ⟨h,rfl,fun _ hq => by cases hq; exact ⟨escBuf,rfl⟩⟩

theorem seqKey_shows {escBuf rest : Bytes} {q : EscSeq} (hsize : escBuf.length = 7)
    (hrest : escBuf = q.bytes ++ rest) (hlt : q.bytes.length < 6) (c : UInt8) : ∃ r' shown,
    seqKey escBuf q.bytes.length c = .ok ⟨r',shown,(q.next c hlt).2⟩ ∧
      ShowsSeq r' (q.next c hlt).1 := by
  have hlen : q.bytes.length+rest.length = 7 := by rw [← List.length_append,← hrest,hsize]
  obtain ⟨x,y,rest,rfl⟩ : ∃ x y rest', rest = x :: y :: rest' := by
    rcases rest with _ | ⟨x,_ | ⟨y,rest⟩⟩
    · simp only [List.length_nil] at hlen; omega
    · simp only [List.length_cons,List.length_nil] at hlen; omega
    · exact ⟨x,y,rest,rfl⟩
  have hfirst : store EditFault.outside escBuf q.bytes.length c =
      .ok (q.bytes ++ c :: y :: rest) := by rw [hrest,store_append]
  have hsecond : store EditFault.outside (q.bytes ++ c :: y :: rest) (q.bytes.length+1) 0 =
      .ok (q.bytes ++ [c] ++ 0 :: rest) := by
    have hstore : store EditFault.outside (q.bytes ++ [c] ++ y :: rest) (q.bytes ++ [c]).length 0 =
        .ok (q.bytes ++ [c] ++ 0 :: rest) := store_append (q.bytes ++ [c]) y rest 0
    rwa [List.length_append,List.length_singleton,List.append_assoc] at hstore
  have hnew : (q.bytes ++ [c] ++ 0 :: rest).length = 7 := by
    simp only [List.length_append,List.length_cons,List.length_nil] at hlen ⊢
    omega
  have hadd : ∀ hc : c ≠ 0, ShowsSeq ⟨some (q.bytes.length+1),q.bytes ++ [c] ++ 0 :: rest⟩
      (some (q.add c hlt hc)) := fun hc =>
    ⟨hnew,by simp [EscSeq.add],fun _ hq => by cases hq; exact ⟨_,rfl⟩⟩
  rw [seqKey,hfirst,ok_bind,hsecond,ok_bind,EscSeq.next]
  by_cases hstart : q.bytes = []
  · rw [if_pos (by rw [hstart]; rfl),if_pos hstart]
    have hload : load EditFault.outside (q.bytes ++ [c] ++ 0 :: rest) 0 = .ok c := by
      rw [hstart]
      rfl
    rw [hload,ok_bind]
    by_cases hc : c = 91 ∨ c = 79
    · rw [if_neg (by rw [← not_or,not_not]; exact hc),dif_pos hc]
      have hone : q.bytes.length+1 = 1 := by rw [hstart]; rfl
      have hshows := hadd (firstChar_ne_zero hc)
      rw [hone] at hshows
      exact ⟨_,_,rfl,hshows⟩
    · rw [if_pos (not_or.mp hc),dif_neg hc]
      exact ⟨_,_,rfl,.none_shows hnew⟩
  · rw [if_neg (by rw [List.length_eq_zero_iff]; exact hstart),if_neg hstart]
    by_cases hc : isDigit c = true ∨ c = 59
    · rw [if_pos hc,dif_pos hc]
      exact ⟨_,_,rfl,hadd (seqChar_ne_zero hc)⟩
    · rw [if_neg hc,dif_neg hc]
      by_cases hlast : c = 126 ∨ 65 ≤ c ∧ c ≤ 90
      · have hread : readString EditFault.outside (q.bytes ++ [c] ++ 0 :: rest) 0 =
            .ok (q.bytes ++ [c]) := by
          refine (readString_append [] (q.bytes ++ [c]) rest).trans (congrArg _ (cstr_eq_self ?_))
          simpa [(lastChar_ne_zero hlast).symm] using q.noNul
        rw [if_pos hlast,if_pos hlast,hread,ok_bind]
        exact ⟨_,_,rfl,.none_shows hnew⟩
      · rw [if_neg hlast,if_neg hlast]
        exact ⟨_,_,rfl,.none_shows hnew⟩

theorem readKey_shows {seq : Option EscSeq} (h : ShowsSeq r seq) (c : UInt8) : ∃ r' shown,
    editReadKey r (some c) = .ok ⟨r',shown,(readKey seq c).2⟩ ∧ ShowsSeq r' (readKey seq c).1 := by
  cases seq with
  | none =>
    have hread : editReadKey r (some c) =
        .ok ⟨⟨if c = 27 then some 0 else none,r.escBuf⟩,false,plainKey c⟩ := by
      rw [editReadKey,h.esc]
      rfl
    refine ⟨_,_,hread,?_⟩
    rw [readKey]
    split
    · exact .start_shows h.size
    · exact .none_shows h.size
  | some q =>
    obtain ⟨rest,hrest⟩ := h.cells q rfl
    have hfits := q.fits
    rw [editReadKey,h.esc,readKey]
    simp only [Option.map_some]
    split
    · exact ⟨_,_,rfl,.start_shows h.size⟩
    · split
      · rw [dif_neg (by omega)]
        exact ⟨_,_,rfl,.none_shows h.size⟩
      · have hlt : q.bytes.length < 6 := by omega
        rw [dif_pos hlt]
        exact seqKey_shows h.size hrest hlt c

end Reading

section Searching
variable {s : Edit} {p : Prompt} {q : Search}

/-- The entries that the search passes over are those of the abstract search. -/
theorem searchFind_shows (h : s.Shows p) (hbuf : s.searchBuf = q.pattern) :
    s.searchFind = (((q.found p.past.entries)[s.searchSkip]?).map Text.bytes,
      { s with searchSkip :=
        if q.pattern = [] ∨ s.searchSkip < (q.found p.past.entries).length then s.searchSkip
        else 0 }) := by
  rw [Edit.searchFind,Search.found,← hbuf]
  split
  · rename_i hempty
    rw [if_pos (.inl hempty)]
    rfl
  · rename_i hne
    have hfilter : (s.historyList.filter fun str => (strstr s.searchBuf str).isSome) =
        (p.past.entries.filter fun t => (strstr s.searchBuf t.bytes).isSome).map Text.bytes := by
      rw [h.history,List.filter_map]
      rfl
    rw [hfilter,List.getElem?_map]
    set found := p.past.entries.filter fun t => (strstr s.searchBuf t.bytes).isSome
    by_cases hlt : s.searchSkip < found.length
    · rw [List.getElem?_eq_getElem hlt,if_pos (.inr hlt)]
      rfl
    · rw [List.getElem?_eq_none (by omega),if_neg (by simp [hne,hlt])]
      rfl

theorem searchRedraw_shows (h : s.Shows p) (hbuf : s.searchBuf = q.pattern) :
    s.searchRedraw = { s with searchSkip :=
      if q.pattern = [] ∨ s.searchSkip < (q.found p.past.entries).length then s.searchSkip
      else 0 } := by
  rw [Edit.searchRedraw,searchFind_shows h hbuf]

/-- A search with nothing passed over. -/
theorem newSearch_shows (h : s.Shows p) (q : Search) (hq : q.skip = 0) :
    Edit.Shows (Edit.searchRedraw { s with searchBuf := q.pattern, searchSkip := 0, search := true })
      { p with search := some q } := by
  have hnew : Edit.Shows { s with searchBuf := q.pattern, searchSkip := 0, search := true }
      { p with search := some q } :=
    { h with search := rfl, pattern := fun _ hq' => by cases hq'; exact ⟨rfl,fun _ => hq.symm⟩ }
  rw [searchRedraw_shows hnew rfl,ite_self]
  exact hnew

theorem searchStart_shows (h : s.Shows p) : s.searchStart.Shows { p with search := some .start } :=
  newSearch_shows h .start rfl

theorem Edit.Shows.leave (h : s.Shows p) :
    Edit.Shows { s with search := false } { p with search := none } :=
  { h with search := rfl, pattern := fun _ hq => by cases hq }

theorem copyLine_shows (h : s.Shows p) (t : Text) :
    ∃ s', s.copyLine t.bytes = .ok s' ∧ s'.Shows { p with line := .ofText t } := by
  have hfits := t.fits
  have hsize := h.line.size
  have hcopy : copyInto EditFault.outside s.cmdbuf 0 t.bytes 0 t.bytes.length =
      .ok (t.bytes ++ s.cmdbuf.drop t.bytes.length) := by
    rw [copyInto,if_pos ⟨by omega,by omega⟩,List.take_zero,List.drop_zero,List.take_length,
      Nat.zero_add]
    rfl
  obtain ⟨x,rest,hrest⟩ : ∃ x rest, s.cmdbuf.drop t.bytes.length = x :: rest :=
    List.exists_cons_of_length_pos (by rw [List.length_drop]; omega)
  have hread : readString EditFault.outside (t.bytes ++ 0 :: rest) 0 = .ok t.bytes :=
    (readString_append [] t.bytes rest).trans (congrArg _ (cstr_eq_self t.noNul))
  have hlen := congrArg List.length hrest
  rw [List.length_drop,List.length_cons] at hlen
  rw [Edit.copyLine,clip_eq_self t.fits]
  simp only [hcopy,ok_bind,hrest,store_append,hread]
  refine h.redraw (l := .ofText t) ⟨rfl,?_,⟨0 :: rest,rfl⟩,?_⟩
  · rw [Line.ofText,Cursor.text,List.append_nil]
  · rw [List.length_append,List.length_cons]
    omega

variable (h : s.Shows p) (hq : p.search = some q)
include h hq

theorem searchBuf_eq : s.searchBuf = q.pattern := (h.pattern q hq).1

/-- The search is over, and its pattern is empty. -/
theorem clear_shows (skip : ℕ) :
    Edit.Shows (Edit.searchRedraw { s with searchBuf := [], searchSkip := skip })
      { p with search := some .start } := by
  have hsearch : s.search = true := by rw [h.search,hq]; rfl
  have hnew : Edit.Shows { s with searchBuf := [], searchSkip := skip }
      { p with search := some .start } :=
    { h with
      search := hsearch
      pattern := fun _ hq' => by cases hq'; exact ⟨rfl,fun hne => absurd rfl hne⟩ }
  rw [searchRedraw_shows hnew (q := .start) rfl,if_pos (.inl rfl)]
  exact hnew

theorem searchCancel_shows : ∃ s', s.searchCancel = .ok s' ∧
    Edit.Shows { s' with search := false } { p with search := none } := by
  obtain ⟨s',hdraw,hshows⟩ := (clear_shows h hq s.searchSkip).drawn
  exact ⟨s',hdraw,hshows.leave⟩

theorem searchStop_shows : ∃ s', s.searchStop = .ok s' ∧
    Edit.Shows { s' with search := false } (p.choose q) := by
  have hfound := searchFind_shows h (searchBuf_eq h hq)
  have hshown : (q.found p.past.entries)[s.searchSkip]? = (q.found p.past.entries)[q.skip]? := by
    by_cases hne : q.pattern = []
    · rw [Search.found,if_pos hne]
      rfl
    · rw [(h.pattern q hq).2 hne]
  rw [hshown] at hfound
  rw [Edit.searchStop,hfound,Prompt.choose]
  cases (q.found p.past.entries)[q.skip]? with
  | none =>
    obtain ⟨s',hdraw,hshows⟩ := (clear_shows h hq _).drawn
    exact ⟨s',hdraw,hshows.leave⟩
  | some t =>
    obtain ⟨s',hset,hshows⟩ := copyLine_shows (clear_shows h hq _) t
    exact ⟨s',hset,hshows.leave⟩

theorem searchNext_shows : s.searchNext.Shows
    { p with search := some (q.next p.past.entries) } := by
  have hbuf := searchBuf_eq h hq
  have hsearch : s.search = true := by rw [h.search,hq]; rfl
  have hnew : ∀ skip, Edit.Shows { s with searchSkip := skip }
      { p with search := some { q with skip := skip } } := fun skip =>
    { h with
      search := hsearch
      pattern := fun _ hq' => by cases hq'; exact ⟨hbuf,fun _ => rfl⟩ }
  have hredraw := fun skip => searchRedraw_shows (hnew skip) (q := q) hbuf
  rw [Edit.searchNext,searchFind_shows (hnew (s.searchSkip+1)) (q := q) hbuf,hredraw]
  refine { h with search := hsearch, pattern := fun _ hq' => ?_ }
  cases hq'
  refine ⟨hbuf,fun hne => ?_⟩
  have hne : q.pattern ≠ [] := hne
  have hskip := (h.pattern q hq).2 hne
  simp only [hne,false_or,hskip,Search.next]
  split
  · rfl
  · exact ite_self _

theorem searchBackspace_shows : s.searchBackspace.Shows { p with search := some q.backspace } := by
  have hbuf := searchBuf_eq h hq
  have hsearch : s.search = true := by rw [h.search,hq]; rfl
  rw [Edit.searchBackspace,hbuf,Search.backspace]
  split
  · have heq : { p with search := some q } = p := by rw [← hq]
    exact heq ▸ h
  · have hnew := newSearch_shows h ⟨q.pattern.dropLast,by
      rw [List.length_dropLast]; have := q.fits; omega,0⟩ rfl
    rwa [← hsearch] at hnew

theorem searchChar_shows (c : UInt8) : ∃ s', s.searchChar c = .ok s' ∧
    s'.Shows { p with search := some (q.char c) } := by
  have hbuf := searchBuf_eq h hq
  have hsearch : s.search = true := by rw [h.search,hq]; rfl
  have hfits := q.fits
  rw [Edit.searchChar,hbuf,Search.char]
  split
  · rw [dif_neg (by omega)]
    have heq : { p with search := some q } = p := by rw [← hq]
    exact ⟨s,rfl,heq.symm ▸ h⟩
  · have hlt : q.pattern.length+1 < searchBufLen := by omega
    rw [if_pos hlt,dif_pos hlt]
    have hnew := newSearch_shows h ⟨q.pattern ++ [c],by simpa using hlt,0⟩ rfl
    rw [← hsearch] at hnew
    exact ⟨_,rfl,hnew⟩

/-- A key leaves the search on, or it is left for the line without the search. -/
theorem searchKey_shows (key : EditKeyCode) :
    ∃ s', s.searchKey key = .ok (s',(p.searching q key).2) ∧
      ((p.searching q key).2 = .none ∧ s'.Shows (p.searching q key).1 ∨
        (p.searching q key).2 ≠ .none ∧
          Edit.Shows { s' with search := false } (p.searching q key).1) := by
  have hstop : ∀ k : EditKeyCode, k ≠ .none → ∃ s',
      (do return (← s.searchStop,k) : Except EditFault (Edit × EditKeyCode)) = .ok (s',k) ∧
        (k = .none ∧ s'.Shows (p.choose q) ∨
          k ≠ .none ∧ Edit.Shows { s' with search := false } (p.choose q)) := by
    intro k hk
    obtain ⟨s',hrun,hshows⟩ := searchStop_shows h hq
    exact ⟨s',by rw [hrun]; rfl,.inr ⟨hk,hshows⟩⟩
  have hcancel : ∃ s', (do return (← s.searchCancel,EditKeyCode.eof) :
      Except EditFault (Edit × EditKeyCode)) = .ok (s',.eof) ∧
        (EditKeyCode.eof = .none ∧ s'.Shows { p with search := none } ∨
          EditKeyCode.eof ≠ .none ∧
            Edit.Shows { s' with search := false } { p with search := none }) := by
    obtain ⟨s',hrun,hshows⟩ := searchCancel_shows h hq
    exact ⟨s',by rw [hrun]; rfl,.inr ⟨by decide,hshows⟩⟩
  cases key
  case enter | ctrlJ | left | right | home | finish | ctrlA | ctrlE => exact hstop _ (by decide)
  case up | down => exact hcancel
  case ctrlH | backspace => exact ⟨_,rfl,.inl ⟨rfl,searchBackspace_shows h hq⟩⟩
  case ctrlR => exact ⟨_,rfl,.inl ⟨rfl,searchNext_shows h hq⟩⟩
  case char c =>
    rw [Edit.searchKey,Prompt.searching]
    split
    · obtain ⟨s',hrun,hshows⟩ := searchChar_shows h hq c
      exact ⟨s',by rw [hrun]; rfl,.inl ⟨rfl,hshows⟩⟩
    · exact ⟨s,rfl,.inl ⟨rfl,h⟩⟩
  all_goals exact ⟨s,rfl,.inl ⟨rfl,h⟩⟩

end Searching

section Runs
variable {s : Edit} {p : Prompt} (cb : EditCallbacks)

theorem editKey_shows (h : s.Shows p) (key : EditKeyCode) :
    ∃ s', s.editKey cb key = .ok s' ∧ s'.Shows (p.key cb key) := by
  have heof : Edit.Shows { s with calls := s.calls ++ [.eof] }
      { p with calls := p.calls ++ [.eof] } :=
    { h with calls := by rw [h.calls] }
  have hlen : s.cmdbufLen = p.line.text.bytes.length := h.line.len_eq
  cases key
  case eof => exact ⟨_,rfl,heof⟩
  case tab => exact complete_shows cb h
  case up | ctrlP => exact historyPrev_shows h
  case down | ctrlN => exact historyNext_shows h
  case right | ctrlF => exact moveRight_shows h
  case left | ctrlB => exact moveLeft_shows h
  case ctrlRight => exact moveWordRight_shows h
  case ctrlLeft => exact moveWordLeft_shows h
  case delete => exact deleteCurrent_shows h
  case finish | ctrlE => exact moveEnd_shows h
  case home | ctrlA => exact moveStart_shows h
  case f2 => exact historyDebugDump_shows h
  case ctrlL => exact h.drawn
  case ctrlD =>
    rw [Edit.editKey,Prompt.key]
    by_cases hempty : p.line.text.bytes = []
    · rw [if_neg (by rw [hlen,hempty]; simp),if_pos hempty]
      exact ⟨_,rfl,heof⟩
    · rw [if_pos (by rw [hlen]; exact List.length_pos_iff.mpr hempty),if_neg hempty]
      exact deleteCurrent_shows h
  case ctrlH | backspace => exact deleteLeft_shows h
  case enter | ctrlJ => exact processCmd_shows cb h
  case ctrlK => exact clearRight_shows h
  case ctrlR => exact ⟨_,rfl,searchStart_shows h⟩
  case ctrlU => exact clearLeft_shows h
  case ctrlW => exact deleteWord_shows h
  case char c =>
    rw [Edit.editKey,Prompt.key]
    split
    · exact insertChar_shows h _
    · exact ⟨s,rfl,h⟩
  all_goals exact ⟨s,rfl,h⟩

theorem handleKey_shows (h : s.Shows p) (key : EditKeyCode) :
    ∃ s', s.handleKey cb key = .ok s' ∧ s'.Shows (p.handle cb key) := by
  rw [Edit.handleKey,h.search,Prompt.handle]
  cases hq : p.search with
  | none => exact editKey_shows cb h key
  | some q =>
    obtain ⟨s₁,hrun,hs₁⟩ := searchKey_shows h hq key
    simp only [Option.isSome_some,if_true,hrun,ok_bind]
    generalize p.searching q key = found at hs₁ ⊢
    rcases hs₁ with ⟨hnone,hshows⟩ | ⟨hkey,hshows⟩
    · rw [if_pos hnone,if_pos (.inl hnone)]
      exact ⟨s₁,rfl,hshows⟩
    · rw [if_neg hkey]
      by_cases heof : found.2 = .eof
      · rw [if_pos heof,if_pos (.inr heof)]
        exact ⟨_,rfl,hshows⟩
      · rw [if_neg heof,if_neg (by simp [hkey,heof])]
        exact editKey_shows cb hshows found.2

/-- One byte of the input, or its end. -/
theorem editReadChar_shows (h : s.Shows p) (input : Option UInt8) :
    ∃ s', s.editReadChar cb input = .ok s' ∧ s'.Shows (p.step cb input) := by
  obtain ⟨reader,shown,hread,hseq⟩ : ∃ reader shown, editReadKey s.reader input =
      .ok ⟨reader,shown,(input.elim (p.seq,.eof) (readKey p.seq)).2⟩ ∧
        ShowsSeq reader (input.elim (p.seq,.eof) (readKey p.seq)).1 := by
    cases input with
    | none => exact ⟨_,_,rfl,h.seq⟩
    | some c => exact readKey_shows h.seq c
  have hkey : Edit.Shows { s with reader := reader }
      { p with seq := (input.elim (p.seq,.eof) (readKey p.seq)).1 } := { h with seq := hseq }
  obtain ⟨s₁,hdraw,hs₁⟩ : ∃ s₁, Edit.redrawIf { s with reader := reader } shown = .ok s₁ ∧
      s₁.Shows { p with seq := (input.elim (p.seq,.eof) (readKey p.seq)).1 } := by
    rw [Edit.redrawIf]
    split
    · exact hkey.drawn
    · exact ⟨_,rfl,hkey⟩
  rw [Edit.editReadChar,hread,ok_bind]
  simp only [hdraw,ok_bind]
  exact handleKey_shows cb hs₁ _

theorem editRun_shows (h : s.Shows p) (inputs : List (Option UInt8)) :
    ∃ s', s.editRun cb inputs = .ok s' ∧ s'.Shows (p.run cb inputs) := by
  induction inputs generalizing s p with
  | nil => exact ⟨s,rfl,h⟩
  | cons input inputs ih =>
    obtain ⟨s₁,hstep,hs₁⟩ := editReadChar_shows cb h input
    obtain ⟨s',hrun,hs'⟩ := ih hs₁
    exact ⟨s',by rw [Edit.editRun,hstep,ok_bind,hrun],hs'⟩

end Runs

end WpaCliWrapper
