import WpaCliWrapper.Edit.Refinement

/-! From one start of the prompt to the next: the history file, the history after any input, and what
comes back from the file. -/
namespace WpaCliWrapper
open CText

section Files

theorem fgetsAll_length {size : ℕ} (hsize : 2 ≤ size) {buf file line : Bytes}
    (hbuf : buf.length < size-1) (h : line ∈ fgetsAll size buf file) : line.length < size := by
  induction file generalizing buf with
  | nil =>
    rw [fgetsAll] at h
    split at h
    · cases h
    · rw [List.mem_singleton.mp h]
      omega
  | cons c file ih =>
    rw [fgetsAll] at h
    split at h
    · rcases List.mem_cons.mp h with rfl | h
      · rw [List.length_append,List.length_singleton]
        omega
      · exact @ih [] (by rw [List.length_nil]; omega) h
    · rename_i hgo
      refine ih ?_ h
      rw [List.length_append,List.length_singleton]
      have := (not_or.mp hgo).2
      omega

/-- A line of the file is a line that the editor has room for. -/
theorem historyRead_fits {file line : Bytes} (h : line ∈ historyRead file) :
    line.length < cmdBufLen ∧ 0 ∉ line ∧ ∀ c ∈ line, c ≠ 13 ∧ c ≠ 10 := by
  obtain ⟨buf,hbuf,rfl⟩ := List.mem_map.mp h
  have hpre := List.takeWhile_prefix (fun c : UInt8 => c != 13 && c != 10) (l := cstr buf)
  have hcstr := List.takeWhile_prefix (fun c : UInt8 => c != 0) (l := buf)
  refine ⟨?_,fun hmem => cstr_noNul buf (hpre.subset hmem),fun c hc => ?_⟩
  · exact (hpre.trans hcstr).length_le.trans_lt
      (fgetsAll_length (by decide) (by decide) hbuf)
  · simpa using List.mem_takeWhile_imp hc

def historyTexts (file : Bytes) : List Text :=
  (historyRead file).pmap (fun line h => ⟨line,h.1,h.2.1⟩) fun _ h => historyRead_fits h

theorem historyTexts_bytes (file : Bytes) :
    (historyTexts file).map Text.bytes = historyRead file := by
  rw [historyTexts,List.map_pmap]
  exact (List.pmap_eq_map _).trans (List.map_id _)

/-- The prompt at its start. -/
def Prompt.init (file : Bytes) : Prompt where
  line := .ofText ⟨[],Nat.zero_lt_succ _,List.not_mem_nil⟩
  saved := none
  past := (historyTexts file).foldl Recall.addLine .empty
  search := none
  seq := none
  calls := []

theorem addLine_shows (texts : List Text) (r : Recall) :
    (texts.map Text.bytes).foldl historyAdd (r.entries.map Text.bytes) =
      (texts.foldl Recall.addLine r).entries.map Text.bytes ∧
    (texts.foldl Recall.addLine r).curr =
      if (texts.map Text.bytes).all (· == []) then r.curr else some 0 := by
  induction texts generalizing r with
  | nil => exact ⟨rfl,rfl⟩
  | cons t texts ih =>
    rw [List.map_cons,List.foldl_cons,List.foldl_cons,List.all_cons,Recall.addLine]
    by_cases ht : t.bytes = []
    · rw [dif_pos ht,ht,historyAdd,if_pos rfl]
      exact ih r
    · obtain ⟨hentries,hcurr⟩ := ih (r.add t ht)
      rw [dif_neg ht,historyAdd_shows r ht]
      refine ⟨hentries,hcurr.trans ?_⟩
      have hfalse : (t.bytes == []) = false := by simpa using ht
      rw [hfalse,Bool.false_and,if_neg Bool.false_ne_true]
      exact ite_self _

theorem editInit_shows (file : Bytes) : (editInit file).Shows (.init file) where
  line := ⟨rfl,rfl,⟨List.replicate cmdBufLen 0,rfl⟩,List.length_replicate⟩
  size := List.length_replicate
  valid := rfl
  saved := fun _ h => by cases h
  history := by
    have h := (addLine_shows (historyTexts file) .empty).1
    rwa [historyTexts_bytes] at h
  curr := by
    have h := (addLine_shows (historyTexts file) .empty).2
    rw [historyTexts_bytes] at h
    exact h.symm
  search := rfl
  pattern := fun _ h => by cases h
  seq := ⟨rfl,rfl,fun _ h => by cases h⟩
  calls := rfl

/-- Whatever is typed, whatever the history file has and whatever is offered as completions: no array
of the editor is accessed outside its bounds, and the editor is the prompt. -/
theorem edit_refines (cb : EditCallbacks) (file : Bytes) (inputs : List (Option UInt8)) :
    ∃ s, (editInit file).editRun cb inputs = .ok s ∧ s.Shows ((Prompt.init file).run cb inputs) :=
  editRun_shows cb (editInit_shows file) inputs

end Files

section Histories

/-- The commands among the calls. -/
def commands (calls : List EditCall) : List Bytes :=
  calls.filterMap fun
    | .cmd line => some line
    | .eof => none

/-- What a step can do to the history: nothing, or the command that it calls is added. -/
def Prompt.Extends (p p' : Prompt) : Prop :=
  p'.past.entries = p.past.entries ∧ commands p'.calls = commands p.calls ∨
    ∃ t, p'.past.entries = Recent.keep historyMax p.past.entries t ∧
      commands p'.calls = commands p.calls ++ [t.bytes]

variable {p : Prompt} (cb : EditCallbacks)

theorem commands_append (calls : List EditCall) (line : Bytes) :
    commands (calls ++ [.cmd line]) = commands calls ++ [line] := by
  rw [commands,List.filterMap_append]
  rfl

theorem commands_eof (calls : List EditCall) : commands (calls ++ [.eof]) = commands calls := by
  rw [commands,List.filterMap_append]
  exact List.append_nil _

theorem recallAt_same (i : ℕ) :
    (p.recallAt i).past.entries = p.past.entries ∧ (p.recallAt i).calls = p.calls := by
  rw [Prompt.recallAt]
  split <;> exact ⟨rfl,rfl⟩

theorem older_same : p.older.past.entries = p.past.entries ∧ p.older.calls = p.calls := by
  rw [Prompt.older]
  split
  · exact ⟨rfl,rfl⟩
  · split
    · exact recallAt_same _
    · exact recallAt_same _

theorem newer_same : p.newer.past.entries = p.past.entries ∧ p.newer.calls = p.calls := by
  rw [Prompt.newer]
  split
  · exact ⟨rfl,rfl⟩
  · exact ⟨rfl,rfl⟩
  · exact recallAt_same _

theorem extends_same {p' : Prompt} (hentries : p'.past.entries = p.past.entries)
    (hcalls : p'.calls = p.calls) : p.Extends p' := .inl ⟨hentries,by rw [hcalls]⟩

theorem enter_extends : p.Extends p.enter := by
  rw [Prompt.enter]
  split
  · exact extends_same rfl rfl
  · exact .inr ⟨p.line.text,rfl,commands_append _ _⟩

theorem key_extends (key : EditKeyCode) : p.Extends (p.key cb key) := by
  cases key
  case eof => exact .inl ⟨rfl,commands_eof _⟩
  case tab =>
    rw [Prompt.key,Prompt.tab]
    split <;> exact extends_same rfl rfl
  case up | ctrlP => exact extends_same older_same.1 older_same.2
  case down | ctrlN => exact extends_same newer_same.1 newer_same.2
  case enter | ctrlJ => exact enter_extends
  case ctrlD =>
    rw [Prompt.key]
    split
    · exact .inl ⟨rfl,commands_eof _⟩
    · exact extends_same rfl rfl
  case char c =>
    rw [Prompt.key]
    split <;> exact extends_same rfl rfl
  all_goals exact extends_same rfl rfl

theorem searching_same (q : Search) (key : EditKeyCode) :
    (p.searching q key).1.past = p.past ∧ (p.searching q key).1.calls = p.calls := by
  unfold Prompt.searching
  split
  case h_6 =>
    split <;> exact ⟨rfl,rfl⟩
  case h_7 =>
    split <;> exact ⟨rfl,rfl⟩
  all_goals exact ⟨rfl,rfl⟩

theorem handle_extends (key : EditKeyCode) : p.Extends (p.handle cb key) := by
  rw [Prompt.handle]
  split
  · exact key_extends cb key
  · rename_i q hq
    have hsame := searching_same (p := p) q key
    simp only
    split
    · exact extends_same (by rw [hsame.1]) hsame.2
    · have hext := key_extends cb (p := (p.searching q key).1) (p.searching q key).2
      rwa [Prompt.Extends,hsame.1,hsame.2] at hext

theorem step_extends (input : Option UInt8) : p.Extends (p.step cb input) :=
  handle_extends cb (p := { p with seq := (input.elim (p.seq,.eof) (readKey p.seq)).1 }) _

/-- The history has the last ones of some lines and of all commands after them. -/
def Prompt.Recalls (p : Prompt) (before : List Bytes) : Prop :=
  p.past.entries.map Text.bytes =
    (Recent.recent (before ++ commands p.calls)).take historyMax

theorem recalls_of_extends {p' : Prompt} {before : List Bytes} (h : p.Recalls before)
    (hext : p.Extends p') : p'.Recalls before := by
  rw [Prompt.Recalls] at h ⊢
  rcases hext with ⟨hentries,hcalls⟩ | ⟨t,hentries,hcalls⟩
  · rw [hentries,hcalls,h]
  · rw [hentries,hcalls,← Recent.keep_map Text.bytes_injective,h,← List.append_assoc,
      Recent.recent_append]
    exact Recent.keep_take 99 _ _

theorem run_recalls {before : List Bytes} (h : p.Recalls before) (inputs : List (Option UInt8)) :
    (p.run cb inputs).Recalls before := by
  induction inputs generalizing p with
  | nil => exact h
  | cons input inputs ih => exact ih (recalls_of_extends h (step_extends cb input))

/-- Lines of a file are added like commands; the empty ones are not. -/
theorem foldl_historyAdd {history : List Bytes} (hshort : history.length ≤ historyMax)
    (lines : List Bytes) : lines.foldl historyAdd history =
      (lines.filter (· ≠ [])).foldl (Recent.keep historyMax) history := by
  induction lines generalizing history with
  | nil => rfl
  | cons line lines ih =>
    rw [List.foldl_cons]
    by_cases hline : line = []
    · rw [List.filter_cons_of_neg (by simpa using hline),historyAdd,if_pos hline]
      exact ih hshort
    · rw [List.filter_cons_of_pos (by simpa using hline),List.foldl_cons,
        historyAdd_eq_keep hshort hline]
      exact ih (Recent.keep_length_le _ _ _)

theorem init_recalls (file : Bytes) :
    (Prompt.init file).Recalls ((historyRead file).filter (· ≠ [])) := by
  have hinit := (editInit_shows file).history
  rw [Prompt.Recalls,← hinit]
  have hrun := Recent.foldl_keep 99 [] ((historyRead file).filter (· ≠ []))
  rw [List.nil_append] at hrun
  refine (foldl_historyAdd (Nat.zero_le _) _).trans (hrun.trans ?_)
  rw [Prompt.init,commands,List.filterMap_nil,List.append_nil]
  rfl

/-- After any input the history is made of the last hundred commands, in the order of their last
use and each once, those of the file before those that were typed. -/
theorem history_recent (cb : EditCallbacks) (file : Bytes) (inputs : List (Option UInt8)) :
    ∃ s, (editInit file).editRun cb inputs = .ok s ∧ s.historyList =
      (Recent.recent ((historyRead file).filter (· ≠ []) ++ commands s.calls)).take historyMax := by
  obtain ⟨s,hrun,hs⟩ := editRun_shows cb (editInit_shows file) inputs
  refine ⟨s,hrun,?_⟩
  rw [hs.history,hs.calls]
  exact run_recalls cb (init_recalls file) inputs

end Histories

section Bytes
variable (P : UInt8 → Prop)

/-- All characters of the prompt have a property. -/
structure Prompt.All (p : Prompt) : Prop where
  line : ∀ c ∈ p.line.cursor.text, P c
  saved : ∀ t ∈ p.saved, ∀ c ∈ t.bytes, P c
  entries : ∀ t ∈ p.past.entries, ∀ c ∈ t.bytes, P c

/-- The strings that are offered as completions have it. -/
def EditCallbacks.Offers (cb : EditCallbacks) : Prop :=
  ∀ f ∈ cb.completion, ∀ str pos, ∀ words ∈ f str pos, ∀ w ∈ words, ∀ c ∈ w.bytes, P c

variable {P} {p : Prompt} {cb : EditCallbacks}

theorem all_of_text (h : p.All P) (t : Text) (ht : ∀ c ∈ t.bytes, P c) :
    Prompt.All P { p with line := .ofText t } :=
  { h with line := fun c hc => ht c (by simpa [Line.ofText,Cursor.text] using hc) }

/-- A line with characters of the old one only. -/
theorem all_of_subset (h : p.All P) {l : Line} (hl : l.cursor.text ⊆ p.line.cursor.text) :
    Prompt.All P { p with line := l } := { h with line := fun c hc => h.line c (hl hc) }

theorem all_moveTo (h : p.All P) (i : ℕ) : Prompt.All P { p with line := p.line.moveTo i } :=
  all_of_subset h (by
    change (p.line.cursor.moveTo i).text ⊆ _
    rw [Cursor.text_moveTo]
    exact List.Subset.refl _)

theorem all_recallAt (h : p.All P) (i : ℕ) : (p.recallAt i).All P := by
  rw [Prompt.recallAt]
  split
  · exact { all_of_text h _ (h.entries _ (List.getElem_mem _)) with entries := h.entries }
  · exact h

theorem all_restore (h : p.All P) : p.restore.All P := by
  rw [Prompt.restore]
  cases hsaved : p.saved with
  | none => exact { h with saved := fun _ ht => by cases ht }
  | some t =>
    exact { all_of_text h t (h.saved t hsaved) with saved := fun _ ht => by cases ht }

theorem all_older (h : p.All P) : p.older.All P := by
  rw [Prompt.older]
  split
  · exact h
  · split
    · exact all_recallAt (p := { p with saved := some p.line.text })
        { h with saved := fun t ht => by cases ht; exact h.line } _
    · exact all_recallAt h _

theorem all_newer (h : p.All P) : p.newer.All P := by
  rw [Prompt.newer]
  split
  · exact all_restore h
  · exact all_restore h
  · exact all_recallAt h _

theorem all_enter (h : p.All P) : p.enter.All P := by
  rw [Prompt.enter]
  split
  · exact { h with saved := fun _ ht => by cases ht }
  · refine ⟨fun _ hc => (by cases hc),fun _ ht => (by cases ht),fun t ht => ?_⟩
    rcases Recent.mem_touch.mp (List.mem_of_mem_take ht) with rfl | ht
    · exact h.line
    · exact h.entries t ht

theorem completion_all (hspace : P 32) {l : Line} {words : List CString}
    (hwords : ∀ w ∈ words, ∀ c ∈ w.bytes, P c) {new : Bytes} (h : l.completion words = some new) :
    ∀ c ∈ new, P c := by
  simp only [Line.completion] at h
  cases hfound : Edit.filterStrings words (l.cursor.word isSpaceChar) with
  | nil => rw [hfound] at h; cases h
  | cons first others =>
    have hfirst : first ∈ words := by
      refine (List.mem_filter (p := fun s => hasPrefixCase s.bytes (l.cursor.word isSpaceChar)).mp ?_).1
      rw [Edit.filterStrings] at hfound
      rw [hfound]
      exact List.mem_cons_self
    rw [hfound] at h
    simp only at h
    split at h
    · cases h
    · cases h
      intro c hc
      rcases List.mem_append.mp hc with hc | hc
      · exact hwords first hfirst c (List.mem_of_mem_take (List.mem_of_mem_take hc))
      · split at hc
        · rw [List.mem_singleton.mp hc]
          exact hspace
        · cases hc

theorem all_tab (h : p.All P) (hspace : P 32) (hcb : cb.Offers P) : (p.tab cb).All P := by
  rw [Prompt.tab]
  split
  · exact h
  · rename_i words hwords
    obtain ⟨f,hf,hwords⟩ := Option.bind_eq_some_iff.mp hwords
    have hoffer := hcb f hf _ _ words hwords
    refine { h with line := ?_ }
    cases hnew : p.line.completion words with
    | none =>
      rw [Line.complete_none hnew]
      exact h.line
    | some new =>
      have hnewP := completion_all hspace hoffer hnew
      change ∀ c ∈ (p.line.complete words).cursor.text, P c
      rw [Line.complete_some hnew]
      intro c hc
      have hline := h.line c
      rw [Cursor.text,← p.line.cursor.before_word isSpaceChar] at hline
      simp only [Cursor.replaceWord,Cursor.text,List.mem_append] at hc hline
      rcases hc with (hc | hc) | hc
      · exact hline (.inl (.inl hc))
      · exact hnewP c hc
      · exact hline (.inr hc)

theorem all_key (h : p.All P) (hprint : ∀ c, 32 ≤ c → P c) (hcb : cb.Offers P)
    (key : EditKeyCode) : (p.key cb key).All P := by
  cases key
  case tab => exact all_tab h (hprint 32 (by decide)) hcb
  case up | ctrlP => exact all_older h
  case down | ctrlN => exact all_newer h
  case right | ctrlF | left | ctrlB | ctrlRight | ctrlLeft | finish | ctrlE | home | ctrlA =>
    exact all_moveTo h _
  case delete => exact all_of_subset h p.line.cursor.text_deleteRight.subset
  case ctrlH | backspace => exact all_of_subset h p.line.cursor.text_deleteLeft.subset
  case enter | ctrlJ => exact all_enter h
  case ctrlK => exact all_of_subset h p.line.cursor.text_clearRight.subset
  case ctrlU => exact all_of_subset h p.line.cursor.text_clearLeft.subset
  case ctrlW => exact all_of_subset h (p.line.cursor.text_deleteWord isSpaceChar).subset
  case ctrlD =>
    rw [Prompt.key]
    split
    · exact { h with }
    · exact all_of_subset h p.line.cursor.text_deleteRight.subset
  case char c =>
    rw [Prompt.key]
    split
    · rename_i hc
      refine { h with line := fun x hx => ?_ }
      simp only [Line.insert] at hx
      split at hx
      · simp only [Cursor.insert,Cursor.text,List.append_assoc,List.mem_append,
          List.mem_singleton] at hx
        rcases hx with hx | rfl | hx
        · exact h.line x (List.mem_append_left _ hx)
        · exact hprint x hc
        · exact h.line x (List.mem_append_right _ hx)
      · exact h.line x hx
    · exact h
  all_goals exact { h with }

theorem all_choose (h : p.All P) (q : Search) : (p.choose q).All P := by
  rw [Prompt.choose]
  cases hfound : (q.found p.past.entries)[q.skip]? with
  | none => exact { h with }
  | some t =>
    have hmem : t ∈ p.past.entries := by
      have hmem := List.mem_of_getElem? hfound
      rw [Search.found] at hmem
      split at hmem
      · cases hmem
      · exact (List.mem_filter.mp hmem).1
    exact { all_of_text h t (h.entries t hmem) with }

theorem all_searching (h : p.All P) (q : Search) (key : EditKeyCode) :
    (p.searching q key).1.All P := by
  unfold Prompt.searching
  split
  case h_6 =>
    split
    · exact { h with }
    · exact h
  case h_7 =>
    split
    · exact all_choose h q
    · exact h
  all_goals exact { h with }

theorem all_step (h : p.All P) (hprint : ∀ c, 32 ≤ c → P c) (hcb : cb.Offers P)
    (input : Option UInt8) : (p.step cb input).All P := by
  have hkey : ∀ (p : Prompt) (_ : p.All P) key, (p.handle cb key).All P := by
    intro p h key
    rw [Prompt.handle]
    split
    · exact all_key h hprint hcb key
    · rename_i q hq
      simp only
      split
      · exact all_searching h q key
      · exact all_key (all_searching h q key) hprint hcb _
  exact hkey { p with seq := (input.elim (p.seq,.eof) (readKey p.seq)).1 } { h with } _

theorem all_run (h : p.All P) (hprint : ∀ c, 32 ≤ c → P c) (hcb : cb.Offers P)
    (inputs : List (Option UInt8)) : (p.run cb inputs).All P := by
  induction inputs generalizing p with
  | nil => exact h
  | cons input inputs ih => exact ih (all_step h hprint hcb input)

end Bytes

section Survival

/-- A line of the file that fits the array of `fgets` is read as a whole; if its newline does not
fit, too, an empty line follows. -/
theorem fgetsAll_line {size : ℕ} {line : Bytes} (hline : 10 ∉ line) {buf : Bytes}
    (hbuf : buf.length < size-1) (hfits : buf.length+line.length ≤ size-1) (rest : Bytes) :
    fgetsAll size buf (line ++ 10 :: rest) =
      if buf.length+line.length = size-1 then (buf ++ line) :: [10] :: fgetsAll size [] rest
      else (buf ++ line ++ [10]) :: fgetsAll size [] rest := by
  induction line generalizing buf with
  | nil =>
    rw [List.nil_append,fgetsAll,if_pos (.inl rfl),if_neg (by rw [List.length_nil]; omega),
      List.append_nil]
  | cons c line ih =>
    have hc : c ≠ 10 := fun hc => hline (hc ▸ List.mem_cons_self)
    have htail : 10 ∉ line := fun hmem => hline (List.mem_cons_of_mem c hmem)
    rw [List.length_cons] at hfits
    rw [List.cons_append,fgetsAll,List.length_cons]
    by_cases hfull : buf.length+1 = size-1
    · -- the array is full, and only the newline is left
      have hnil : line = [] := List.eq_nil_of_length_eq_zero (by omega)
      rw [if_pos (.inr hfull),hnil,List.nil_append,fgetsAll,if_pos (.inl rfl),List.length_nil,
        if_pos hfull]
      rfl
    · have hnext := @ih htail (buf ++ [c])
        (by rw [List.length_append,List.length_singleton]; omega)
        (by rw [List.length_append,List.length_singleton]; omega)
      have hsum : (buf ++ [c]).length+line.length = buf.length+(line.length+1) := by
        rw [List.length_append,List.length_singleton]
        omega
      rw [if_neg (by simp [hc,hfull]),hnext,hsum]
      simp only [List.append_assoc,List.singleton_append]

theorem historyRead_append {line : Bytes} (hne : line ≠ []) (hfits : line.length < cmdBufLen)
    (h0 : 0 ∉ line) (hplain : ∀ c ∈ line, c ≠ 13 ∧ c ≠ 10) (rest : Bytes) :
    (historyRead (line ++ 10 :: rest)).filter (· ≠ []) =
      line :: (historyRead rest).filter (· ≠ []) := by
  have hcut : ∀ tail : Bytes, tail = [] ∨ tail = [10] →
      (cstr (line ++ tail)).takeWhile (fun c => c != 13 && c != 10) = line := by
    have hall : ∀ c ∈ line, (c != 13 && c != 10) = true := fun c hc => by
      simpa using hplain c hc
    rintro tail (rfl | rfl)
    · rw [List.append_nil,cstr_eq_self h0]
      exact List.takeWhile_eq_self_iff.mpr hall
    · rw [cstr_eq_self (by simpa using h0),List.takeWhile_append_of_pos hall]
      exact List.append_nil line
  have hline : 10 ∉ line := fun hmem => (hplain 10 hmem).2 rfl
  have hlen : line.length ≤ cmdBufLen-1 := by omega
  rw [historyRead,fgetsAll_line hline (by decide) (by simpa using hlen) rest,List.nil_append]
  have hkeep := hcut [] (.inl rfl)
  rw [List.append_nil] at hkeep
  split
  · rw [List.map_cons,List.map_cons,hkeep,List.filter_cons_of_pos (by simpa using hne)]
    rfl
  · rw [List.map_cons,hcut [10] (.inr rfl),List.filter_cons_of_pos (by simpa using hne)]
    rfl

/-- The lines of a file come back. -/
theorem historyRead_lines {lines : List Bytes} (h : ∀ line ∈ lines, line ≠ [] ∧
    line.length < cmdBufLen ∧ 0 ∉ line ∧ ∀ c ∈ line, c ≠ 13 ∧ c ≠ 10) :
    (historyRead (lines.flatMap (· ++ [10]))).filter (· ≠ []) = lines := by
  induction lines with
  | nil => rfl
  | cons line lines ih =>
    obtain ⟨hne,hfits,h0,hplain⟩ := h line List.mem_cons_self
    rw [List.flatMap_cons,List.append_assoc,List.singleton_append,
      historyRead_append hne hfits h0 hplain,ih fun l hl => h l (List.mem_cons_of_mem _ hl)]

theorem init_all (file : Bytes) : (Prompt.init file).All fun c => c ≠ 13 ∧ c ≠ 10 := by
  refine ⟨fun _ hc => (by cases hc),fun _ ht => (by cases ht),fun t ht => ?_⟩
  have hmem : t.bytes ∈ (Prompt.init file).past.entries.map Text.bytes :=
    List.mem_map_of_mem ht
  rw [init_recalls file] at hmem
  have hread := Recent.mem_recent.mp (List.mem_of_mem_take hmem)
  rw [Prompt.init,commands,List.filterMap_nil,List.append_nil] at hread
  exact (historyRead_fits (List.mem_filter.mp hread).1).2.2

/-- After any input the next start of the prompt finds in the file what the filter lets through, in
the same order. -/
theorem history_survives (cfg : BuildConfig) (cb : EditCallbacks)
    (hcb : cb.Offers fun c => c ≠ 13 ∧ c ≠ 10) (file : Bytes) (inputs : List (Option UInt8)) :
    ∃ s, (editInit file).editRun cb inputs = .ok s ∧
      (editInit (historyFile cfg s.historyList)).historyList =
        s.historyList.filter (wpaCliEditFilterHistoryCb cfg · = 0) := by
  obtain ⟨s,hrun,hs⟩ := editRun_shows cb (editInit_shows file) inputs
  refine ⟨s,hrun,?_⟩
  have hall := all_run (init_all file) (fun c hc => ⟨fun h => absurd (h ▸ hc) (by decide),
    fun h => absurd (h ▸ hc) (by decide)⟩) hcb inputs
  have hnodup : s.historyList.Nodup := by
    rw [hs.history]
    exact ((Prompt.init file).run cb inputs).past.nodup.map Text.bytes_injective
  have hlen : s.historyList.length ≤ historyMax := by
    rw [hs.history,List.length_map]
    exact ((Prompt.init file).run cb inputs).past.short
  set kept := s.historyList.filter (wpaCliEditFilterHistoryCb cfg · = 0) with hkept
  have hwritten : historyWrite cfg s.historyList = kept.reverse := List.filter_reverse ..
  have hlines : ∀ line ∈ kept.reverse, line ≠ [] ∧ line.length < cmdBufLen ∧ 0 ∉ line ∧
      ∀ c ∈ line, c ≠ 13 ∧ c ≠ 10 := by
    intro line hline
    have hmem := (List.mem_filter.mp (List.mem_reverse.mp hline)).1
    rw [hs.history] at hmem
    obtain ⟨t,ht,rfl⟩ := List.mem_map.mp hmem
    exact ⟨((Prompt.init file).run cb inputs).past.filled t ht,t.fits,t.noNul,hall.entries t ht⟩
  change (historyRead (historyFile cfg s.historyList)).foldl historyAdd [] = kept
  rw [foldl_historyAdd (Nat.zero_le _),historyFile,hwritten,historyRead_lines hlines]
  exact Recent.foldl_keep_reverse (hnodup.filter _) ((List.length_filter_le _ _).trans hlen)

/-- A callback that offers one word. -/
def oneWord (w : CString) : EditCallbacks := ⟨id,fun _ => rfl,some fun _ _ => some [w]⟩

theorem history_survives_status : ∃ s, (editInit (ascii "scan\n")).editRun
    (oneWord ⟨ascii "status",by decide⟩) ((ascii "st\t\n").map some) = .ok s ∧
      (editInit (historyFile (fun _ => true) s.historyList)).historyList =
        s.historyList.filter (wpaCliEditFilterHistoryCb (fun _ => true) · = 0) :=
  history_survives (fun _ => true) _ (by
    rintro f hf str pos words hwords w hw
    cases hf
    cases hwords
    cases List.mem_singleton.mp hw
    decide +kernel) _ _

end Survival

end WpaCliWrapper
