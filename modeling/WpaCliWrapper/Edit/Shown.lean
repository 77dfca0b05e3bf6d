import WpaCliWrapper.Edit.Prompt

/-! How the arrays of the editor show the prompt. What an operation does to the line or to the
history it does in the arrays, without an access outside them. -/
namespace WpaCliWrapper
open CText

section Shown

/-- The array has a line with its cursor, and room for a NUL. -/
structure ShowsLine (cells : Bytes) (pos len : ℕ) (z : Cursor UInt8) : Prop where
  pos_eq : pos = z.before.length
  len_eq : len = z.text.length
  cells_eq : ∃ rest, cells = z.before ++ (z.after ++ rest)
  size : cells.length = cmdBufLen

/-- A sequence in the buffer of the reader. -/
structure ShowsSeq (r : KeyReader) (seq : Option EscSeq) : Prop where
  size : r.escBuf.length = 7
  esc : r.esc = seq.map (·.bytes.length)
  cells : ∀ q ∈ seq, ∃ rest, r.escBuf = q.bytes ++ rest

structure Edit.Shows (s : Edit) (p : Prompt) : Prop where
  line : ShowsLine s.cmdbuf s.cmdbufPos s.cmdbufLen p.line.cursor
  size : s.currbuf.length = cmdBufLen
  valid : s.currbufValid = p.saved.isSome
  saved : ∀ t ∈ p.saved, Holds s.currbuf t.bytes
  history : s.historyList = p.past.entries.map Text.bytes
  curr : s.historyCurr = p.past.curr
  search : s.search = p.search.isSome
  pattern : ∀ q ∈ p.search, s.searchBuf = q.pattern ∧ (q.pattern ≠ [] → s.searchSkip = q.skip)
  seq : ShowsSeq s.reader p.seq
  calls : s.calls = p.calls

theorem span_add (a b : ℕ) : span (a+b) a = .ok b := by
  rw [span,if_pos (Nat.le_add_right a b),Nat.add_sub_cancel_left]

variable {cells : Bytes} {pos len : ℕ} {z : Cursor UInt8}

namespace ShowsLine

/-- Behind a line that fits there is a cell for the NUL. -/
theorem exists_cell (h : ShowsLine cells pos len z) (hfits : z.text.length < cmdBufLen) :
    ∃ x rest, cells = z.before ++ (z.after ++ x :: rest) := by
  obtain ⟨rest,hrest⟩ := h.cells_eq
  cases rest with
  | nil =>
    have hsize := h.size
    rw [hrest,List.append_nil] at hsize
    exact absurd hsize hfits.ne
  | cons x rest => exact ⟨x,rest,hrest⟩

theorem moveTo (h : ShowsLine cells pos len z) {i : ℕ} (hi : i ≤ z.text.length) :
    ShowsLine cells i len (z.moveTo i) := by
  obtain ⟨rest,hrest⟩ := h.cells_eq
  refine ⟨(List.length_take_of_le hi).symm,?_,⟨rest,?_⟩,h.size⟩
  · rw [h.len_eq,Cursor.text_moveTo]
  · rw [hrest,Cursor.moveTo,← List.append_assoc,← List.append_assoc,List.take_append_drop]
    rfl

end ShowsLine

/-- A NUL is stored behind the line. -/
theorem store_shows (h : ShowsLine cells pos len z) (hfits : z.text.length < cmdBufLen) :
    ∃ rest, store EditFault.outside cells len 0 = .ok (z.before ++ (z.after ++ 0 :: rest)) ∧
      ShowsLine (z.before ++ (z.after ++ 0 :: rest)) pos len z := by
  obtain ⟨x,rest,hcells⟩ := h.exists_cell hfits
  refine ⟨rest,?_,h.pos_eq,h.len_eq,⟨_,rfl⟩,?_⟩
  · rw [hcells,h.len_eq,← List.append_assoc,← List.append_assoc]
    exact store_append z.text x rest 0
  · have hsize := h.size
    rw [hcells] at hsize
    simpa using hsize

theorem readLine_shows (l : Line) (rest : Bytes) :
    readString EditFault.outside (l.cursor.before ++ (l.cursor.after ++ 0 :: rest)) 0 =
      .ok l.text.bytes := by
  rw [← List.append_assoc]
  exact (readString_append [] l.cursor.text rest).trans (congrArg _ (cstr_eq_self l.noNul))

/-- A second NUL stands at the cursor for a moment. -/
theorem redraw_shows {s : Edit} (h : ShowsLine s.cmdbuf s.cmdbufPos s.cmdbufLen z)
    (hfits : z.text.length < cmdBufLen) :
    ∃ cells, s.redraw = .ok { s with cmdbuf := cells } ∧
      ShowsLine cells s.cmdbufPos s.cmdbufLen z := by
  obtain ⟨rest,hstore,hshows⟩ := store_shows h hfits
  refine ⟨_,?_,hshows⟩
  rw [Edit.redraw,hstore,ok_bind]
  split
  · rfl
  · rename_i hne
    cases hafter : z.after with
    | nil => exact absurd (by rw [h.pos_eq,h.len_eq,Cursor.text,hafter,List.append_nil]) hne
    | cons y after =>
      rw [h.pos_eq,List.cons_append,load_append,ok_bind,store_append,ok_bind,store_append,ok_bind]
      rfl

/-- Some cells in front of the rest of a line are taken out. -/
theorem close_shows {cells a b c t r : Bytes} (h : cells = a ++ (b ++ (c ++ t ++ r)))
    (hsize : cells.length = cmdBufLen) : ∃ cells',
    copyInto EditFault.outside cells a.length cells (a.length+b.length) (c ++ t).length =
      .ok cells' ∧ ShowsLine cells' a.length (a ++ c).length ⟨a,c⟩ := by
  obtain ⟨r',hcopy,hlen⟩ := copyInto_close EditFault.outside a b (c ++ t) r
  refine ⟨_,by rw [h]; exact hcopy,rfl,rfl,⟨t ++ r',by rw [List.append_assoc]⟩,?_⟩
  rw [h] at hsize
  simp only [List.length_append] at hsize hlen ⊢
  omega

variable {s : Edit} {p : Prompt}

/-- Another line in the array, which is drawn. -/
theorem Edit.Shows.redraw (h : s.Shows p) {l : Line} (hl : ShowsLine cells pos len l.cursor) :
    ∃ s', Edit.redraw { s with cmdbuf := cells, cmdbufPos := pos, cmdbufLen := len } = .ok s' ∧
      s'.Shows { p with line := l } := by
  obtain ⟨cells',hdraw,hshows⟩ :=
    redraw_shows (s := { s with cmdbuf := cells, cmdbufPos := pos, cmdbufLen := len }) hl l.fits
  exact ⟨_,hdraw,{ h with line := hshows }⟩

theorem Edit.Shows.drawn (h : s.Shows p) : ∃ s', s.redraw = .ok s' ∧ s'.Shows p := h.redraw h.line

end Shown

section Lines
variable {s : Edit} {p : Prompt} (h : s.Shows p)
include h

theorem moveTo_shows {i : ℕ} (hi : i ≤ p.line.cursor.text.length) :
    ∃ s', Edit.redraw { s with cmdbufPos := i } = .ok s' ∧
      s'.Shows { p with line := p.line.moveTo i } := h.redraw (h.line.moveTo hi)

/-- The line stays as it is, when its cursor does. -/
theorem shows_same {l : Line} (hl : l.cursor = p.line.cursor) :
    ∃ s', (.ok s : Except EditFault Edit) = .ok s' ∧ s'.Shows { p with line := l } := by
  have heq : l = p.line := Line.ext hl
  exact ⟨s,rfl,heq ▸ h⟩

theorem moveStart_shows : ∃ s', s.moveStart = .ok s' ∧
    s'.Shows { p with line := p.line.moveTo 0 } := moveTo_shows h (Nat.zero_le _)

theorem moveEnd_shows : ∃ s', s.moveEnd = .ok s' ∧
    s'.Shows { p with line := p.line.moveTo p.line.cursor.text.length } := by
  have hrun := moveTo_shows h le_rfl
  rwa [← h.line.len_eq] at hrun ⊢

theorem moveLeft_shows : ∃ s', s.moveLeft = .ok s' ∧
    s'.Shows { p with line := p.line.moveTo (p.line.cursor.before.length-1) } := by
  have hpos := h.line.pos_eq
  rw [Edit.moveLeft]
  split
  · have hrun := moveTo_shows h ((Nat.sub_le _ 1).trans p.line.cursor.before_length_le)
    rwa [← hpos] at hrun ⊢
  · have hzero : p.line.cursor.before.length-1 = p.line.cursor.before.length := by omega
    exact shows_same h (by rw [hzero]; exact Cursor.moveTo_self _)

theorem moveRight_shows : ∃ s', s.moveRight = .ok s' ∧
    s'.Shows { p with line := p.line.moveTo (p.line.cursor.before.length+1) } := by
  have hpos := h.line.pos_eq
  have hlen := h.line.len_eq
  rw [Edit.moveRight]
  split
  · have hrun := moveTo_shows (i := p.line.cursor.before.length+1) h (by omega)
    rwa [← hpos] at hrun ⊢
  · -- behind the line the cells of the text are all in front of the cursor
    have hafter : p.line.cursor.after = [] := by
      rw [Cursor.text,List.length_append] at hlen
      exact List.eq_nil_of_length_eq_zero (by omega)
    have htext : p.line.cursor.text = p.line.cursor.before := by
      rw [Cursor.text,hafter,List.append_nil]
    refine shows_same h ?_
    change p.line.cursor.moveTo _ = _
    rw [Cursor.moveTo,htext,List.take_of_length_le (Nat.le_succ _),
      List.drop_of_length_le (Nat.le_succ _),← hafter]

theorem wordStart_shows : s.wordStart = .ok (p.line.cursor.wordLeft isSpaceChar).length := by
  obtain ⟨rest,hrest⟩ := h.line.cells_eq
  have hword := List.rdropWhile_append_rtakeWhile (p := isSpaceChar) (l := p.line.cursor.before)
  rw [Edit.wordStart,hrest,h.line.pos_eq,backWhile_append,ok_bind]
  nth_rewrite 1 [← hword]
  rw [List.append_assoc,backWhile_append]
  rfl

theorem moveWordLeft_shows : ∃ s', s.moveWordLeft = .ok s' ∧
    s'.Shows { p with line := p.line.moveTo (p.line.cursor.wordLeft isSpaceChar).length } := by
  rw [Edit.moveWordLeft,wordStart_shows h,ok_bind]
  exact moveTo_shows h ((p.line.cursor.wordLeft_prefix isSpaceChar).length_le.trans p.line.cursor.before_length_le)

theorem moveWordRight_shows : ∃ s', s.moveWordRight = .ok s' ∧
    s'.Shows { p with line := p.line.moveTo (p.line.cursor.wordRight isSpaceChar) } := by
  obtain ⟨rest,hrest⟩ := h.line.cells_eq
  have hpos := h.line.pos_eq
  have hlen := h.line.len_eq
  generalize hz : p.line.cursor = z at hrest hpos hlen ⊢
  have hwords := List.takeWhile_append_dropWhile (p := isSpaceChar) (l := z.after)
  have hparts := congrArg List.length hwords
  have hword := (List.takeWhile_prefix (!isSpaceChar ·) (l := z.after.dropWhile isSpaceChar)).length_le
  rw [Cursor.text,List.length_append] at hlen
  rw [List.length_append] at hparts
  have hfirst : forwardWhile EditFault.outside isSpaceChar s.cmdbuf (s.cmdbufLen-s.cmdbufPos)
      s.cmdbufPos = .ok (z.before.length+(z.after.takeWhile isSpaceChar).length) := by
    have hsub : s.cmdbufLen-s.cmdbufPos = z.after.length := by omega
    rw [hsub,hpos,hrest,forwardWhile_append]
  have hsecond : forwardWhile EditFault.outside (!isSpaceChar ·) s.cmdbuf
      (s.cmdbufLen-(z.before.length+(z.after.takeWhile isSpaceChar).length))
      (z.before.length+(z.after.takeWhile isSpaceChar).length) =
        .ok (z.wordRight isSpaceChar) := by
    have hsub : s.cmdbufLen-(z.before.length+(z.after.takeWhile isSpaceChar).length) =
        (z.after.dropWhile isSpaceChar).length := by omega
    have hcells : s.cmdbuf = (z.before ++ z.after.takeWhile isSpaceChar) ++
        (z.after.dropWhile isSpaceChar ++ rest) := by
      rw [hrest]
      nth_rewrite 1 [← hwords]
      simp only [List.append_assoc]
    rw [hsub,hcells,← List.length_append,forwardWhile_append,List.length_append]
    rfl
  rw [Edit.moveWordRight,hfirst,ok_bind,hsecond,ok_bind]
  refine moveTo_shows h ?_
  rw [hz,Cursor.text,List.length_append,Cursor.wordRight]
  omega

theorem tail_span : span s.cmdbufLen s.cmdbufPos = .ok p.line.cursor.after.length := by
  rw [h.line.len_eq,h.line.pos_eq,Cursor.text,List.length_append,span_add]

theorem deleteLeft_shows : ∃ s', s.deleteLeft = .ok s' ∧
    s'.Shows { p with line := p.line.deleteLeft } := by
  have hpos := h.line.pos_eq
  have hlen := h.line.len_eq
  rw [Edit.deleteLeft]
  split
  · have hbefore : p.line.cursor.before = [] := List.eq_nil_of_length_eq_zero (by omega)
    refine shows_same h ?_
    change p.line.cursor.deleteLeft = _
    rw [Cursor.deleteLeft,hbefore,List.dropLast_nil,← hbefore]
  · have hne : p.line.cursor.before ≠ [] := by
      rw [← List.length_pos_iff]
      omega
    obtain ⟨rest,hrest⟩ := h.line.cells_eq
    have hsplit := List.dropLast_append_getLast hne
    obtain ⟨cells,hcopy,hshows⟩ := close_shows (a := p.line.cursor.before.dropLast)
      (b := [p.line.cursor.before.getLast hne]) (c := p.line.cursor.after) (t := []) (r := rest)
      (by rw [List.append_nil,← List.append_assoc,hsplit,hrest]) h.line.size
    have hone : s.cmdbufPos-1 = p.line.cursor.before.dropLast.length := by
      rw [List.length_dropLast,hpos]
    have hback : p.line.cursor.before.dropLast.length+1 = s.cmdbufPos := by omega
    have hshort : s.cmdbufLen-1 = (p.line.cursor.before.dropLast ++ p.line.cursor.after).length := by
      rw [hlen,Cursor.text,List.length_append,List.length_append]
      omega
    rw [List.append_nil,List.length_singleton,hback,← hone] at hcopy
    rw [tail_span h,ok_bind,hcopy,ok_bind]
    refine h.redraw (l := p.line.deleteLeft) ?_
    rwa [← hone,← hshort] at hshows

theorem deleteCurrent_shows : ∃ s', s.deleteCurrent = .ok s' ∧
    s'.Shows { p with line := p.line.deleteRight } := by
  have hlen := h.line.len_eq
  rw [Edit.deleteCurrent]
  cases hafter : p.line.cursor.after with
  | nil =>
    have hend : s.cmdbufPos = s.cmdbufLen := by
      rw [h.line.pos_eq,hlen,Cursor.text,hafter,List.append_nil]
    rw [if_pos hend]
    refine shows_same h ?_
    change p.line.cursor.deleteRight = _
    rw [Cursor.deleteRight,hafter,List.tail_nil,← hafter]
  | cons y after =>
    -- the cell behind the line is moved, too
    obtain ⟨x,rest,hrest⟩ := h.line.exists_cell p.line.fits
    have htext : s.cmdbufLen = p.line.cursor.before.length+(after.length+1) := by
      rw [hlen,Cursor.text,hafter,List.length_append,List.length_cons]
    obtain ⟨cells,hcopy,hshows⟩ := close_shows (a := p.line.cursor.before) (b := [y]) (c := after)
      (t := [x]) (r := rest) (by rw [hrest,hafter]; simp) h.line.size
    have hshort : s.cmdbufLen-1 = (p.line.cursor.before ++ after).length := by
      rw [htext,List.length_append]
      rfl
    rw [List.length_append,List.length_singleton,List.length_singleton,← h.line.pos_eq] at hcopy
    rw [if_neg (by rw [h.line.pos_eq]; omega),tail_span h,ok_bind,hafter,List.length_cons,hcopy,
      ok_bind]
    refine h.redraw (l := p.line.deleteRight) ?_
    change ShowsLine _ _ _ ⟨_,p.line.cursor.after.tail⟩
    rwa [hafter,List.tail_cons,hshort,h.line.pos_eq]

theorem deleteWord_shows : ∃ s', s.deleteWord = .ok s' ∧
    s'.Shows { p with line := p.line.deleteWord } := by
  obtain ⟨rest,hrest⟩ := h.line.cells_eq
  obtain ⟨b,hb⟩ := p.line.cursor.wordLeft_prefix isSpaceChar
  have hpos : s.cmdbufPos = (p.line.cursor.wordLeft isSpaceChar).length+b.length := by
    rw [h.line.pos_eq,← List.length_append,hb]
  have hlen : s.cmdbufLen =
      b.length+(p.line.cursor.wordLeft isSpaceChar ++ p.line.cursor.after).length := by
    rw [h.line.len_eq,Cursor.text,List.length_append,← h.line.pos_eq,hpos,List.length_append]
    omega
  obtain ⟨cells,hcopy,hshows⟩ := close_shows (a := p.line.cursor.wordLeft isSpaceChar) (b := b)
    (c := p.line.cursor.after) (t := []) (r := rest)
    (by rw [List.append_nil,← List.append_assoc,hb,hrest]) h.line.size
  rw [List.append_nil,← hpos] at hcopy
  have hgone : span s.cmdbufPos (p.line.cursor.wordLeft isSpaceChar).length =
      .ok b.length := by rw [hpos,span_add]
  have hleft : span s.cmdbufLen b.length =
      .ok (p.line.cursor.wordLeft isSpaceChar ++ p.line.cursor.after).length := by
    rw [hlen,span_add]
  rw [Edit.deleteWord,wordStart_shows h,ok_bind,tail_span h,ok_bind,hcopy,ok_bind,hgone,ok_bind,
    hleft,ok_bind]
  exact h.redraw (l := p.line.deleteWord) hshows

theorem clearLeft_shows : ∃ s', s.clearLeft = .ok s' ∧
    s'.Shows { p with line := p.line.clearLeft } := by
  rw [Edit.clearLeft]
  split
  · have hpos := h.line.pos_eq
    have hbefore : p.line.cursor.before = [] := List.eq_nil_of_length_eq_zero (by omega)
    refine shows_same h ?_
    change p.line.cursor.clearLeft = _
    rw [Cursor.clearLeft,← hbefore]
  · obtain ⟨rest,hrest⟩ := h.line.cells_eq
    obtain ⟨cells,hcopy,hshows⟩ := close_shows (a := []) (b := p.line.cursor.before)
      (c := p.line.cursor.after) (t := []) (r := rest)
      (by rw [List.append_nil,List.nil_append,hrest]) h.line.size
    rw [List.append_nil,List.length_nil,Nat.zero_add,← h.line.pos_eq] at hcopy
    rw [tail_span h,ok_bind,hcopy,ok_bind]
    exact h.redraw (l := p.line.clearLeft) hshows

theorem clearRight_shows : ∃ s', s.clearRight = .ok s' ∧
    s'.Shows { p with line := p.line.clearRight } := by
  have hpos := h.line.pos_eq
  have hlen := h.line.len_eq
  rw [Cursor.text,List.length_append] at hlen
  rw [Edit.clearRight]
  split
  · have hafter : p.line.cursor.after = [] := List.eq_nil_of_length_eq_zero (by omega)
    refine shows_same h ?_
    change p.line.cursor.clearRight = _
    rw [Cursor.clearRight,← hafter]
  · obtain ⟨rest,hrest⟩ := h.line.cells_eq
    have htext : s.cmdbufPos = p.line.cursor.clearRight.text.length := by
      rw [hpos,Cursor.clearRight,Cursor.text,List.append_nil]
    exact h.redraw (l := p.line.clearRight)
      ⟨hpos,htext,⟨p.line.cursor.after ++ rest,hrest⟩,h.line.size⟩

theorem insertChar_shows {c : UInt8} (hc : c ≠ 0) : ∃ s', s.insertChar c = .ok s' ∧
    s'.Shows { p with line := p.line.insert c hc } := by
  have hpos := h.line.pos_eq
  have hlen := h.line.len_eq
  have hsize := h.line.size
  obtain ⟨x,rest,hrest⟩ := h.line.exists_cell p.line.fits
  rw [Edit.insertChar]
  split
  · rename_i hfull
    refine shows_same h ?_
    rw [Line.insert,dif_neg]
    omega
  · rename_i hroom
    have hfits : p.line.cursor.text.length+1 < cmdBufLen := by omega
    have hline : (p.line.insert c hc).cursor = p.line.cursor.insert c := by
      rw [Line.insert,dif_pos hfits]
    have hinsert : ∀ cells more,
        cells = p.line.cursor.before ++ [c] ++ (p.line.cursor.after ++ more) →
        cells.length = cmdBufLen →
        ShowsLine cells (s.cmdbufPos+1) (s.cmdbufLen+1) (p.line.insert c hc).cursor := by
      intro cells more hcells hsize
      rw [hline]
      refine ⟨?_,?_,⟨more,hcells⟩,hsize⟩
      · rw [hpos,Cursor.insert,List.length_append,List.length_singleton]
      · rw [hlen,Cursor.insert,Cursor.text,Cursor.text]
        simp only [List.length_append,List.length_singleton]
        omega
    split
    · rename_i hend
      have hafter : p.line.cursor.after = [] := by
        rw [Cursor.text,List.length_append] at hlen
        exact List.eq_nil_of_length_eq_zero (by omega)
      rw [hafter,List.nil_append] at hrest
      rw [hrest,hpos,store_append,ok_bind]
      refine ⟨_,rfl,{ h with line := ?_ }⟩
      have hshows := hinsert (p.line.cursor.before ++ c :: rest) rest (by rw [hafter]; simp) (by
        rw [hrest] at hsize
        simpa using hsize)
      rwa [hpos] at hshows
    · obtain ⟨gap,hcopy,hgap⟩ := copyInto_open EditFault.outside (n := 1)
        p.line.cursor.before p.line.cursor.after (x :: rest) (by simp)
      obtain ⟨g,rfl⟩ := List.length_eq_one_iff.mp hgap
      rw [tail_span h,ok_bind,hrest,hpos,hcopy,ok_bind,List.singleton_append,store_append,ok_bind]
      have hshows := hinsert (p.line.cursor.before ++ c :: (p.line.cursor.after ++ rest)) rest
        (by simp) (by
          rw [hrest] at hsize
          simp only [List.length_append,List.length_cons] at hsize ⊢
          omega)
      rw [hpos] at hshows
      exact h.redraw hshows

end Lines

section Recalling
variable {s : Edit} {p : Prompt}

theorem setLine_shows (h : s.Shows p) (t : Text) : ∃ s', s.setLine t.bytes = .ok s' ∧
    s'.Shows { p with line := .ofText t } := by
  have hsize := h.line.size
  have hfits := t.fits
  have hcopy : copyInto EditFault.outside s.cmdbuf 0 t.bytes 0 t.bytes.length =
      .ok (t.bytes ++ s.cmdbuf.drop t.bytes.length) := by
    rw [copyInto,if_pos ⟨by omega,by omega⟩,List.take_zero,List.drop_zero,List.take_length,
      Nat.zero_add]
    rfl
  rw [Edit.setLine,hcopy,ok_bind]
  refine h.redraw (l := .ofText t) ⟨rfl,?_,⟨s.cmdbuf.drop t.bytes.length,rfl⟩,?_⟩
  · rw [Line.ofText,Cursor.text,List.append_nil]
  · rw [List.length_append,List.length_drop]
    omega

theorem historyUse_shows (h : s.Shows p) {i : ℕ} (hi : i < p.past.entries.length) :
    ∃ s', s.historyUse i = .ok s' ∧ s'.Shows (p.recallAt i) := by
  have hentry : s.historyList[i]? = some p.past.entries[i].bytes := by
    rw [h.history,List.getElem?_map,List.getElem?_eq_getElem hi]
    rfl
  rw [Edit.historyUse,hentry,Prompt.recallAt,dif_pos hi]
  exact setLine_shows (s := { s with historyCurr := some i })
    (p := { p with past := p.past.goTo i hi }) { h with curr := rfl } _

/-- The line is kept before the history replaces it. -/
theorem keepLine_shows (h : s.Shows p) : ∃ cells currbuf,
    store EditFault.outside s.cmdbuf s.cmdbufLen 0 = .ok cells ∧
    copyInto EditFault.outside s.currbuf 0 cells 0 (s.cmdbufLen+1) = .ok currbuf ∧
    Edit.Shows { s with cmdbuf := cells, currbuf := currbuf, currbufValid := true }
      { p with saved := some p.line.text } := by
  obtain ⟨rest,hstore,hshows⟩ := store_shows h.line p.line.fits
  have hfits := p.line.fits
  have hlen := h.line.len_eq
  have hsize := h.size
  have hcells : p.line.cursor.before ++ (p.line.cursor.after ++ 0 :: rest) =
      [] ++ ((p.line.cursor.text ++ [0]) ++ rest) := by
    simp [Cursor.text]
  have hcopy := copyInto_over EditFault.outside [] (s.currbuf.take (s.cmdbufLen+1))
    (s.currbuf.drop (s.cmdbufLen+1)) [] (p.line.cursor.text ++ [0]) rest (by
      rw [List.length_append,List.length_singleton,List.length_take,hlen]
      omega)
  rw [List.take_append_drop,List.length_append,List.length_singleton,← hlen,← hcells] at hcopy
  refine ⟨_,_,hstore,hcopy,{ h with line := hshows, size := ?_, valid := rfl, saved := ?_ }⟩
  · simp only [List.nil_append,List.length_append,List.length_singleton,List.length_drop]
    omega
  · intro t ht
    cases ht
    exact ⟨s.currbuf.drop (s.cmdbufLen+1),by rw [List.nil_append,List.append_assoc]; rfl⟩

theorem historyPrev_shows (h : s.Shows p) : ∃ s', s.historyPrev = .ok s' ∧ s'.Shows p.older := by
  have hsaved : (!s.currbufValid) = true ↔ p.saved = none := by
    rw [h.valid]
    cases p.saved <;> simp
  rw [Edit.historyPrev,h.curr,Prompt.older]
  cases hcurr : p.past.curr with
  | none => exact ⟨s,rfl,h⟩
  | some curr =>
    have hlt := p.past.curr_lt curr hcurr
    simp only [hsaved]
    split
    · obtain ⟨cells,currbuf,hstore,hcopy,hshows⟩ := keepLine_shows h
      rw [hstore,ok_bind,hcopy,ok_bind,← hcurr,← h.curr]
      exact historyUse_shows hshows hlt
    · rw [h.history,List.length_map]
      split
      · -- the oldest entry stays
        rename_i hlast
        rw [Prompt.recallAt,dif_neg (by omega)]
        exact ⟨s,rfl,h⟩
      · exact historyUse_shows h (by omega)

theorem readSaved_shows (h : s.Shows p) {t : Text} (ht : t ∈ p.saved) :
    readString EditFault.outside s.currbuf 0 = .ok t.bytes := by
  obtain ⟨rest,hrest⟩ := h.saved t ht
  rw [hrest]
  exact (readString_append [] t.bytes rest).trans (congrArg _ (cstr_eq_self t.noNul))

theorem historyLeave_shows (h : s.Shows p) :
    ∃ s', s.historyLeave = .ok s' ∧ s'.Shows p.restore := by
  rw [Edit.historyLeave,Prompt.restore,h.valid]
  cases hsaved : p.saved with
  | none =>
    refine ⟨s,rfl,?_⟩
    have heq : { p with line := p.line, saved := none } = p := by rw [← hsaved]
    exact heq ▸ h
  | some t =>
    rw [Option.isSome_some,if_pos rfl,readSaved_shows h hsaved,ok_bind]
    exact setLine_shows (s := { s with currbufValid := false }) (p := { p with saved := none })
      { h with valid := rfl, saved := by simp } t

theorem historyNext_shows (h : s.Shows p) : ∃ s', s.historyNext = .ok s' ∧ s'.Shows p.newer := by
  rw [Edit.historyNext,h.curr,Prompt.newer]
  rcases hcurr : p.past.curr with _ | _ | curr
  · exact historyLeave_shows h
  · exact historyLeave_shows h
  · exact historyUse_shows h ((Nat.lt_succ_self curr).trans (p.past.curr_lt _ hcurr))

theorem historyDebugDump_shows (h : s.Shows p) :
    ∃ s', s.historyDebugDump = .ok s' ∧ s'.Shows p := by
  rw [Edit.historyDebugDump,h.valid]
  cases hsaved : p.saved with
  | none => exact h.drawn
  | some t =>
    rw [Option.isSome_some,if_pos rfl,readSaved_shows h hsaved,ok_bind]
    exact h.drawn

/-- A command comes to the front of the history, and the oldest one is forgotten. -/
theorem historyAdd_eq_keep {history : List Bytes} {str : Bytes} (hshort : history.length ≤ historyMax)
    (hne : str ≠ []) : historyAdd history str = Recent.keep historyMax history str := by
  -- the comparison of `historyAdd` is the one of the library
  have herase : @List.erase Bytes instBEqOfDecidableEq history str = history.erase str := by
    rw [lawful_beq_subsingleton instBEqOfDecidableEq (inferInstanceAs (BEq (List UInt8)))]
  rw [historyAdd,if_neg hne,Recent.keep,Recent.touch,herase]
  by_cases hold : str ∈ history
  · have hlen : (history.erase str).length < historyMax := by
      have hpos := List.length_pos_of_mem hold
      rw [List.length_erase_of_mem hold]
      omega
    rw [if_pos (List.contains_iff_mem.mpr hold),
      List.take_of_length_le (by rw [List.length_cons]; omega)]
  · rw [if_neg (mt List.contains_iff_mem.mp hold),List.erase_of_not_mem hold]
    split
    · have hmax : historyMax = historyMax-1+1 := rfl
      rw [hmax,List.take_succ_cons,List.dropLast_eq_take]
      congr 2
      omega
    · rw [List.take_of_length_le (by rw [List.length_cons]; omega)]

theorem historyAdd_shows (r : Recall) {t : Text} (ht : t.bytes ≠ []) :
    historyAdd (r.entries.map Text.bytes) t.bytes = (r.add t ht).entries.map Text.bytes := by
  rw [historyAdd_eq_keep (by rw [List.length_map]; exact r.short) ht]
  exact Recent.keep_map Text.bytes_injective _ _ _

theorem processCmd_shows (cb : EditCallbacks) (h : s.Shows p) :
    ∃ s', s.processCmd cb = .ok s' ∧ s'.Shows p.enter := by
  have hlen : s.cmdbufLen = p.line.text.bytes.length := h.line.len_eq
  rw [Edit.processCmd,Prompt.enter]
  by_cases hempty : p.line.text.bytes = []
  · rw [if_pos (by rw [hlen,hempty]; rfl),dif_pos hempty]
    exact ⟨_,rfl,{ h with valid := rfl, saved := by simp }⟩
  · obtain ⟨rest,hstore,hshows⟩ := store_shows h.line p.line.fits
    rw [if_neg (by rw [hlen,List.length_eq_zero_iff]; exact hempty),dif_neg hempty,hstore,ok_bind,
      readLine_shows,ok_bind]
    refine ⟨_,rfl,{ h with
      line := ⟨rfl,rfl,⟨_,rfl⟩,(cb.cmd_length _).trans hshows.size⟩
      valid := rfl, saved := by simp, history := ?_, curr := ?_, calls := ?_ }⟩
    · change historyAdd s.historyList _ = _
      rw [h.history]
      exact historyAdd_shows p.past (t := p.line.text) hempty
    · exact if_neg hempty
    · change s.calls ++ _ = _
      rw [h.calls]

end Recalling

section Completing
variable {s : Edit} {p : Prompt}

/-- The rest of the line makes room, and the start of a string is written over the word. -/
theorem putWord_shows (h : s.Shows p) {str : Bytes} {len addSpace : ℕ} (hspace : addSpace ≤ 1)
    (hstr : (p.line.cursor.word isSpaceChar).length+len ≤ str.length)
    (hroom : s.cmdbufLen+len+addSpace < cmdBufLen) {l : Line}
    (hl : l.cursor = p.line.cursor.replaceWord isSpaceChar
      (str.take ((p.line.cursor.word isSpaceChar).length+len) ++ List.replicate addSpace 32)) :
    ∃ s', s.putWord (p.line.cursor.before.rdropWhile (!isSpaceChar ·)).length
      (p.line.cursor.word isSpaceChar).length str len addSpace = .ok s' ∧
      s'.Shows { p with line := l } := by
  obtain ⟨rest,hrest⟩ := h.line.cells_eq
  have hpos := h.line.pos_eq
  have hlen := h.line.len_eq
  have hsize := h.line.size
  have hbefore := p.line.cursor.before_word isSpaceChar
  rw [Cursor.replaceWord] at hl
  rw [Cursor.text,List.length_append] at hlen
  rw [hrest,List.length_append,List.length_append] at hsize
  generalize p.line.cursor.before.rdropWhile (!isSpaceChar ·) = d at hbefore hl ⊢
  generalize p.line.cursor.word isSpaceChar = w at hbefore hstr hl ⊢
  obtain ⟨gap,hopen,hgap⟩ := copyInto_open EditFault.outside p.line.cursor.before
    p.line.cursor.after rest (n := len+addSpace) (by omega)
  have hover := copyInto_over EditFault.outside d (w ++ gap.take len)
    (gap.drop len ++ (p.line.cursor.after ++ rest.drop (len+addSpace))) [] (str.take (w.length+len))
    (str.drop (w.length+len)) (by
      rw [List.length_append,List.length_take_of_le hstr,List.length_take_of_le (by omega)])
  rw [List.nil_append,List.take_append_drop,List.length_take_of_le hstr,List.length_nil,
    List.append_assoc w,← List.append_assoc (gap.take len),List.take_append_drop,
    ← List.append_assoc d,hbefore] at hover
  have hat : s.cmdbufPos+len = (d ++ str.take (w.length+len)).length := by
    rw [hpos,← hbefore,List.length_append,List.length_append,List.length_take_of_le hstr,
      Nat.add_assoc]
  have hstore : Edit.putSpace addSpace (d ++ (str.take (w.length+len) ++ (gap.drop len ++
      (p.line.cursor.after ++ rest.drop (len+addSpace))))) (s.cmdbufPos+len) =
      .ok (l.cursor.before ++ (l.cursor.after ++ rest.drop (len+addSpace))) := by
    rw [hl,Edit.putSpace]
    rcases Nat.le_one_iff_eq_zero_or_eq_one.mp hspace with rfl | rfl
    · rw [if_pos rfl,List.drop_of_length_le (by omega)]
      simp
    · have hone : (gap.drop len).length = 1 := by rw [List.length_drop]; omega
      obtain ⟨g,hg⟩ := List.length_eq_one_iff.mp hone
      rw [if_neg Nat.one_ne_zero,hg,hat,← List.append_assoc d,List.singleton_append,store_append]
      simp
  have hfinal : (l.cursor.before ++ (l.cursor.after ++ rest.drop (len+addSpace))).length =
      cmdBufLen := by
    have hwhole := congrArg List.length hbefore
    rw [List.length_append] at hwhole
    rw [hl]
    simp only [List.length_append,List.length_take_of_le hstr,List.length_replicate,
      List.length_drop]
    omega
  rw [← hpos,← Nat.add_assoc] at hopen
  rw [Edit.putWord,tail_span h,ok_bind,hrest,hopen,ok_bind,hover,ok_bind,hstore,ok_bind]
  refine h.redraw (l := l) ⟨?_,?_,⟨_,rfl⟩,hfinal⟩
  · rw [hat,hl,← List.append_assoc]
    simp only [List.length_append,List.length_replicate]
  · rw [hlen,hl,Cursor.text]
    have hwhole := congrArg List.length hbefore
    simp only [List.length_append,List.length_take_of_le hstr,List.length_replicate] at hwhole ⊢
    omega

theorem completeWith_shows (h : s.Shows p) (c : List CString) :
    ∃ s', s.completeWith c = .ok s' ∧ s'.Shows { p with line := p.line.complete c } := by
  obtain ⟨rest,hrest⟩ := h.line.cells_eq
  have hpos := h.line.pos_eq
  have hbefore := p.line.cursor.before_word isSpaceChar
  have hstart : backWhile EditFault.outside (!isSpaceChar ·) s.cmdbuf s.cmdbufPos =
      .ok (p.line.cursor.before.rdropWhile (!isSpaceChar ·)).length := by
    rw [hrest,hpos,backWhile_append]
  have hplen : span s.cmdbufPos (p.line.cursor.before.rdropWhile (!isSpaceChar ·)).length =
      .ok (p.line.cursor.word isSpaceChar).length := by
    rw [hpos]
    nth_rewrite 1 [← hbefore]
    rw [List.length_append,span_add]
  have hword : readCells EditFault.outside s.cmdbuf
      (p.line.cursor.before.rdropWhile (!isSpaceChar ·)).length
      (p.line.cursor.word isSpaceChar).length = .ok (p.line.cursor.word isSpaceChar) := by
    rw [hrest]
    nth_rewrite 1 [← hbefore]
    rw [List.append_assoc,readCells_append]
  rw [Edit.completeWith,hstart,ok_bind,hplen,ok_bind,hword,ok_bind]
  cases hfound : Edit.filterStrings c (p.line.cursor.word isSpaceChar) with
  | nil =>
    have hnone : p.line.completion c = none := by rw [Line.completion,hfound]
    exact shows_same h (by rw [Line.complete_none hnone])
  | cons first others =>
    have hfirst : (p.line.cursor.word isSpaceChar).length ≤ first.bytes.length := by
      have hmem : first ∈ Edit.filterStrings c (p.line.cursor.word isSpaceChar) := by
        rw [hfound]
        exact List.mem_cons_self
      have hpre := (List.isPrefixOf_iff_prefix.mp (List.mem_filter.mp hmem).2).length_le
      rwa [List.length_map,List.length_map] at hpre
    simp only
    set n := maxCommonLength first.bytes (others.map CString.bytes) with hn
    set plen := (p.line.cursor.word isSpaceChar).length with hw
    split
    · rename_i hmore
      have hnone : p.line.completion c = none := by
        simp only [Line.completion,hfound,← hn,← hw,if_pos hmore]
      exact shows_same h (by rw [Line.complete_none hnone])
    · rename_i hmore
      have hcommon : plen ≤ n := by
        by_cases hone : others = []
        · rw [hn,hone]
          exact hfirst
        · have : ¬ n ≤ plen := fun hle => hmore ⟨hle,hone⟩
          omega
      have hle : n ≤ first.bytes.length := maxCommonLength_le _ _
      have hfits := p.line.fits
      rw [← h.line.len_eq] at hfits
      have hwanted : span n plen = .ok (n-plen) := if_pos hcommon
      have hroom : span (cmdBufLen-1) s.cmdbufLen = .ok (cmdBufLen-1-s.cmdbufLen) :=
        if_pos (by omega)
      rw [hwanted,ok_bind,hroom,ok_bind]
      -- a blank is added exactly if the strings end in front of the end of the buffer
      set room := cmdBufLen-1-s.cmdbufLen with hr
      set len := if room < n-plen then room else n-plen with hl
      have hlen : len ≤ room ∧ plen+len ≤ n ∧ (len < room ↔ n < plen+room) ∧
          min (plen+room) n = plen+len := by
        rw [hl]
        split <;> omega
      have hspace : (if others = [] ∧ n < plen+room then [32] else []) =
          List.replicate (if others = [] ∧ len < room then 1 else 0) (32 : UInt8) := by
        simp only [hlen.2.2.1]
        split <;> rfl
      have hsome : p.line.completion c = some (first.bytes.take (plen+len) ++
          List.replicate (if others = [] ∧ len < room then 1 else 0) 32) := by
        simp only [Line.completion,hfound,← hn,← hw,if_neg hmore,← h.line.len_eq,← hr]
        rw [hspace,List.take_take,hlen.2.2.2]
      refine putWord_shows h ?_ (hlen.2.1.trans hle) ?_ (Line.complete_some hsome)
      · split <;> omega
      · split <;> omega

theorem complete_shows (cb : EditCallbacks) (h : s.Shows p) :
    ∃ s', s.complete cb = .ok s' ∧ s'.Shows (p.tab cb) := by
  rw [Edit.complete,Prompt.tab]
  cases cb.completion with
  | none => exact ⟨s,rfl,h⟩
  | some f =>
    obtain ⟨rest,hstore,hshows⟩ := store_shows h.line p.line.fits
    have hdrawn : Edit.Shows
        { s with cmdbuf := p.line.cursor.before ++ (p.line.cursor.after ++ 0 :: rest) } p :=
      { h with line := hshows }
    simp only [hstore,ok_bind,readLine_shows,Option.bind_some,← h.line.pos_eq]
    cases f p.line.text.bytes s.cmdbufPos with
    | none => exact ⟨_,rfl,hdrawn⟩
    | some words => exact completeWith_shows hdrawn words

end Completing

end WpaCliWrapper
