import Mathlib.Data.List.DropRight
import WpaCliWrapper.Common.Cli
import WpaCliWrapper.Wrapper.Forwarding

/-! `parse_line` of the library and `tokenize_cmd` of the interactive prompt: for which lines a
forwarding command gets the same request text from both. -/
namespace WpaCliWrapper
open CText

/-- The part of a line from its word number `n` on, where only the space separates words. -/
def fromWord : ℕ → Bytes → Bytes
  | 0, line => line.dropWhile isSpaceChar
  | n+1, line => fromWord n ((line.dropWhile isSpaceChar).dropWhile (!isSpaceChar ·))

/-- The part of a text from its opening quote to the end of the word that holds its last quote;
the first word if it does not start with a quote. -/
def quotedPart (pos : Bytes) : Bytes :=
  pos.take (quotedLength pos) ++ (pos.drop (quotedLength pos)).takeWhile (!isSpaceChar ·)

def afterQuoted (pos : Bytes) : Bytes := (pos.drop (quotedLength pos)).dropWhile (!isSpaceChar ·)

theorem dropWhile_tail_spaces (line : Bytes) :
    ((line.dropWhile (!isSpaceChar ·)).tail).dropWhile isSpaceChar =
      (line.dropWhile (!isSpaceChar ·)).dropWhile isSpaceChar := by
  cases h : line.dropWhile (!isSpaceChar ·) with
  | nil => rfl
  | cons c rest =>
    have hc := List.head_dropWhile_not (!isSpaceChar ·) (l := line) (by simp [h])
    have hc : isSpaceChar c = true := by simpa [h] using hc
    rw [List.tail_cons,List.dropWhile_cons_of_pos hc]

theorem tokenizeArgs_congr {line line' : Bytes}
    (h : line.dropWhile isSpaceChar = line'.dropWhile isSpaceChar) (room : ℕ) :
    tokenizeArgs room line = tokenizeArgs room line' := by
  cases room with
  | zero => rfl
  | succ room => rw [tokenizeArgs,tokenizeArgs,h]

/-- One round of the loop of `tokenize_cmd`. -/
theorem tokenizeArgs_step (room : ℕ) (line : Bytes) (h : fromWord 0 line ≠ []) :
    tokenizeArgs (room+2) line = quotedPart (fromWord 0 line) ::
      tokenizeArgs (room+1) (afterQuoted (fromWord 0 line)) := by
  have hnext := tokenizeArgs_congr (dropWhile_tail_spaces
    ((fromWord 0 line).drop (quotedLength (fromWord 0 line)))) (room+1)
  rw [tokenizeArgs]
  simp only [show line.dropWhile isSpaceChar = fromWord 0 line from rfl,if_neg h,
    if_neg (Nat.succ_ne_zero room)]
  exact congrArg _ hnext

theorem tokenizeArgs_blank {line : Bytes} (h : fromWord 0 line = []) (room : ℕ) :
    tokenizeArgs room line = [] := by
  cases room with
  | zero => rfl
  | succ room => rw [tokenizeArgs]; exact if_pos h

/-- The last entry of `argv` keeps the rest of the line. -/
theorem tokenizeArgs_one (line : Bytes) (h : fromWord 0 line ≠ []) :
    tokenizeArgs 1 line = [fromWord 0 line] := by
  rw [tokenizeArgs]
  exact (if_neg h).trans (if_pos rfl)

theorem quoted_append (pos : Bytes) : quotedPart pos ++ afterQuoted pos = pos := by
  rw [quotedPart,afterQuoted,List.append_assoc,List.takeWhile_append_dropWhile,
    List.take_append_drop]

theorem words_quoted (pos : Bytes) :
    words isSpaceChar pos = words isSpaceChar (quotedPart pos) ++ words isSpaceChar (afterQuoted pos) := by
  nth_rewrite 1 [← quoted_append pos]
  cases h : afterQuoted pos with
  | nil => simp
  | cons c rest =>
    have hc := List.head_dropWhile_not (!isSpaceChar ·) (l := pos.drop (quotedLength pos))
      (by rw [← afterQuoted,h]; simp)
    have hc : isSpaceChar c = true := by
      have he : (pos.drop (quotedLength pos)).dropWhile (!isSpaceChar ·) = c :: rest := h
      simpa [he] using hc
    rw [words_append_cons _ _ hc,words_cons_delim _ hc]

theorem words_fromWord_zero (line : Bytes) :
    words isSpaceChar (fromWord 0 line) = words isSpaceChar line := by
  nth_rewrite 2 [← List.takeWhile_append_dropWhile (p := isSpaceChar) (l := line)]
  rw [words_delims_append fun c hc => List.mem_takeWhile_imp hc]
  rfl

/-- The entries of `argv` split the words of the line among them. -/
theorem flatMap_tokenizeArgs (room : ℕ) (line : Bytes) :
    (tokenizeArgs (room+1) line).flatMap (words isSpaceChar) = words isSpaceChar line := by
  rw [← words_fromWord_zero line]
  by_cases h : fromWord 0 line = []
  · rw [tokenizeArgs_blank h,h]
    simp
  · induction room generalizing line with
    | zero => simp [tokenizeArgs_one line h]
    | succ room ih =>
      rw [tokenizeArgs_step room line h,List.flatMap_cons,words_quoted (fromWord 0 line)]
      congr 1
      by_cases ha : fromWord 0 (afterQuoted (fromWord 0 line)) = []
      · rw [tokenizeArgs_blank ha,← words_fromWord_zero (afterQuoted _),ha]
        simp
      · rw [ih _ ha,words_fromWord_zero]

/-- A word that does not start with a quote is one entry. -/
theorem quotedPart_word {line : Bytes} (h : fromWord 0 line ≠ [])
    (hq : (fromWord 0 line).head? ≠ some 34) :
    IsWord isSpaceChar (quotedPart (fromWord 0 line)) ∧
      words isSpaceChar line =
        quotedPart (fromWord 0 line) :: words isSpaceChar (afterQuoted (fromWord 0 line)) ∧
      ∀ n, fromWord n (afterQuoted (fromWord 0 line)) = fromWord (n+1) line := by
  have h0 : quotedLength (fromWord 0 line) = 0 := if_neg hq
  have hpart : quotedPart (fromWord 0 line) = (fromWord 0 line).takeWhile (!isSpaceChar ·) := by
    rw [quotedPart,h0]
    rfl
  have hw : IsWord isSpaceChar (quotedPart (fromWord 0 line)) := by
    rw [hpart]
    obtain ⟨c,rest,hc⟩ := List.exists_cons_of_ne_nil h
    have hd := List.head_dropWhile_not isSpaceChar (l := line) h
    have hd : isSpaceChar c = false := by
      have he : line.dropWhile isSpaceChar = c :: rest := hc
      simpa [he] using hd
    rw [hc]
    exact isWord_takeWhile hd
  refine ⟨hw,?_,fun n => ?_⟩
  · rw [← words_fromWord_zero line,words_quoted,words_of_word hw]
    rfl
  · rw [afterQuoted,h0]
    rfl

theorem fromWord_fromWord (n : ℕ) (line : Bytes) :
    fromWord 0 (fromWord n line) = fromWord n line := by
  induction n generalizing line with
  | zero => exact List.dropWhile_idempotent isSpaceChar line
  | succ n ih => exact ih _

theorem fromWord_blank {line : Bytes} (h : fromWord 0 line = []) (n : ℕ) : fromWord n line = [] := by
  have hnil : ∀ n, fromWord n [] = [] := fun n => by
    induction n with
    | zero => rfl
    | succ n ih => exact ih
  cases n with
  | zero => exact h
  | succ n =>
    change line.dropWhile isSpaceChar = [] at h
    rw [fromWord,h]
    exact hnil n

theorem words_blank {line : Bytes} (h : fromWord 0 line = []) : words isSpaceChar line = [] := by
  rw [← words_fromWord_zero line,h,words_nil]

/-- The first word starts where the line stops being blank. -/
theorem exists_first_word {line : Bytes} (h : fromWord 0 line ≠ []) :
    ∃ w ws, words isSpaceChar line = w :: ws ∧ w.head? = (fromWord 0 line).head? := by
  rcases first_word_cases (p := isSpaceChar) line with hb | ⟨pre,w,hpre,hw,rfl | ⟨s,rest,hs,rfl⟩⟩
  · exact absurd (List.dropWhile_eq_nil_iff.mpr hb) h
  · have hd : fromWord 0 (pre ++ w) = w := by
      simpa [fromWord] using dropWhile_delims_append hpre hw []
    exact ⟨w,[],by rw [words_delims_append hpre,words_of_word hw],by rw [hd]⟩
  · have hd : fromWord 0 (pre ++ (w ++ s :: rest)) = w ++ s :: rest :=
      dropWhile_delims_append hpre hw (s :: rest)
    refine ⟨w,words isSpaceChar rest,by rw [words_delims_append hpre,words_word_cons hw hs],?_⟩
    rw [hd,List.head?_append_of_ne_nil _ hw.1]

/-- Entries that do not start with a quote are the words of the line; the rest of the line is
left to the other entries. -/
theorem tokenizeArgs_plain (n room : ℕ) (line : Bytes)
    (hq : ∀ w ∈ (words isSpaceChar line).take n, w.head? ≠ some 34) :
    tokenizeArgs (n+room+1) line =
        (words isSpaceChar line).take n ++ tokenizeArgs (room+1) (fromWord n line) ∧
      words isSpaceChar (fromWord n line) = (words isSpaceChar line).drop n := by
  induction n generalizing line with
  | zero =>
    rw [words_fromWord_zero,Nat.zero_add]
    refine ⟨tokenizeArgs_congr ?_ _,rfl⟩
    rw [fromWord,List.dropWhile_idempotent isSpaceChar line]
  | succ n ih =>
    by_cases h : fromWord 0 line = []
    · rw [tokenizeArgs_blank h,fromWord_blank h,words_blank h]
      exact ⟨by simp [tokenizeArgs],by simp⟩
    · have hhead : (fromWord 0 line).head? ≠ some 34 := by
        obtain ⟨w,ws,hw,hh⟩ := exists_first_word h
        rw [← hh]
        exact hq w (by simp [hw])
      obtain ⟨-,hwords,hfrom⟩ := quotedPart_word h hhead
      rw [show n+1+room+1 = n+room+2 by omega,tokenizeArgs_step _ _ h,hwords,← hfrom]
      obtain ⟨h1,h2⟩ := ih (afterQuoted (fromWord 0 line)) fun w hw => hq w (by
        rw [hwords,List.take_succ_cons]
        exact List.mem_cons_of_mem _ hw)
      exact ⟨by rw [h1]; rfl,h2⟩

/-- A tail of a line that can be written with single spaces. -/
def TailSingle (tail : Bytes) : Prop := tail = [] ∨ SingleSpaced isSpaceChar 32 tail

/-- Without a quoted word only the last entry can keep several spaces. -/
theorem tokenize_plain_iff (n : ℕ) (line : Bytes)
    (hq : ∀ w ∈ (words isSpaceChar line).take n, w.head? ≠ some 34) :
    spaced 32 (tokenizeArgs (n+1) line) = spaced 32 (words isSpaceChar line) ↔
      TailSingle (fromWord n line) := by
  obtain ⟨ht,hw⟩ := tokenizeArgs_plain n 0 line hq
  have hzero := fromWord_fromWord n line
  rw [show n+1 = n+0+1 from rfl,ht]
  nth_rewrite 2 [← List.take_append_drop n (words isSpaceChar line)]
  rw [spaced_append,spaced_append,List.append_cancel_left_eq,← hw]
  by_cases h : fromWord n line = []
  · rw [h,tokenizeArgs_blank (by rfl)]
    simp [TailSingle]
  · rw [tokenizeArgs_one _ (by rwa [hzero]),hzero]
    simp only [spaced_cons,spaced_nil,List.append_nil,TailSingle,h,false_or]
    rw [eq_comm]
    exact spaced_words_iff rfl _

theorem quote_not_mem_afterQuoted {pos : Bytes} (h : pos.head? = some 34) : 34 ∉ afterQuoted pos := by
  have hsplit : pos = (pos.reverse.dropWhile (· != 34)).reverse ++
      (pos.reverse.takeWhile (· != 34)).reverse := by
    rw [← List.reverse_append,List.takeWhile_append_dropWhile,List.reverse_reverse]
  have hdrop : pos.drop (quotedLength pos) = (pos.reverse.takeWhile (· != 34)).reverse := by
    have hlen := congrArg List.length hsplit
    simp only [List.length_append,List.length_reverse] at hlen
    refine (congrArg (List.drop (quotedLength pos)) hsplit).trans (List.drop_left' ?_)
    rw [quotedLength,if_pos h,List.length_reverse]
    omega
  intro hm
  have hm := (List.dropWhile_sublist _).subset hm
  rw [hdrop,List.mem_reverse] at hm
  simpa using List.mem_takeWhile_imp hm

/-- A quoted word keeps its spaces, and so does the last entry after it. -/
theorem tokenize_quoted_iff (room : ℕ) (pos : Bytes) (hp : fromWord 0 pos = pos)
    (hq : pos.head? = some 34) :
    spaced 32 (tokenizeArgs (room+2) pos) = spaced 32 (words isSpaceChar pos) ↔
      SingleSpaced isSpaceChar 32 (quotedPart pos) ∧ TailSingle (fromWord room (afterQuoted pos)) := by
  have hne : fromWord 0 pos ≠ [] := by
    rw [hp]
    rintro rfl
    cases hq
  have hplain : ∀ w ∈ (words isSpaceChar (afterQuoted pos)).take room, w.head? ≠ some 34 := by
    intro w hw hh
    have hflat : w.head? ∈ (words isSpaceChar (afterQuoted pos)).flatten.map some := by
      rw [hh,List.mem_map]
      exact ⟨34,List.mem_flatten.mpr ⟨w,List.mem_of_mem_take hw,List.mem_of_head? hh⟩,rfl⟩
    rw [hh,flatten_words] at hflat
    obtain ⟨c,hc,he⟩ := List.mem_map.mp hflat
    cases he
    exact quote_not_mem_afterQuoted hq (List.mem_filter.mp hc).1
  rw [tokenizeArgs_step room pos hne,hp,words_quoted pos,spaced_append,spaced_cons,
    ← tokenize_plain_iff room (afterQuoted pos) hplain,← spaced_words_iff rfl]
  have h1 := length_spaced_words (p := isSpaceChar) 32 (quotedPart pos)
  have h2 := length_spaced_flatMap (p := isSpaceChar) 32 (tokenizeArgs (room+1) (afterQuoted pos))
  rw [flatMap_tokenizeArgs] at h2
  constructor
  · intro h
    have hlen := congrArg List.length h
    simp only [List.length_cons,List.length_append] at hlen
    obtain ⟨ha,hb⟩ := List.append_inj (show (32 :: quotedPart pos) ++ _ = _ from h) (by simp; omega)
    exact ⟨ha.symm,hb⟩
  · rintro ⟨ha,hb⟩
    rw [ha,hb,List.cons_append]

/-- Where `tokenize_cmd` keeps a stretch of the line as it is, the line has single spaces and no
space at the end: from the first word that starts with a quote to the end of the word that holds
the last quote, and from the tenth entry on. -/
def KeptSingle (line : Bytes) : Prop :=
  let n := (words isSpaceChar line).findIdx (·.head? == some 34)
  if n+1 < maxArgs ∧ fromWord n line ≠ [] then
    SingleSpaced isSpaceChar 32 (quotedPart (fromWord n line)) ∧
      TailSingle (fromWord (maxArgs-2-n) (afterQuoted (fromWord n line)))
  else TailSingle (fromWord (maxArgs-1) line)

theorem tokenizeCmd_single_iff (line : Bytes) :
    spaced 32 (tokenizeCmd line) = spaced 32 (words isSpaceChar line) ↔ KeptSingle line := by
  unfold KeptSingle tokenizeCmd
  generalize hn : (words isSpaceChar line).findIdx (·.head? == some 34) = n
  have hbefore : ∀ k ≤ n, ∀ w ∈ (words isSpaceChar line).take k, w.head? ≠ some 34 := by
    intro k hk w hw
    obtain ⟨i,hi,rfl⟩ := List.mem_take_iff_getElem.mp hw
    have hlt : i < (words isSpaceChar line).findIdx (·.head? == some 34) := by omega
    simpa using List.not_of_lt_findIdx hlt
  dsimp only
  by_cases hc : n+1 < maxArgs ∧ fromWord n line ≠ []
  · rw [if_pos hc]
    obtain ⟨h9,hne⟩ := hc
    have h9 : n+1 < 10 := h9
    obtain ⟨ht,hw⟩ := tokenizeArgs_plain n (9-n) line (hbefore n le_rfl)
    have hquote : (fromWord n line).head? = some 34 := by
      obtain ⟨w,ws,hv,hh⟩ := exists_first_word
        (show fromWord 0 (fromWord n line) ≠ [] by rwa [fromWord_fromWord])
      have hat : (words isSpaceChar line)[n]? = some w := by
        rw [← List.head?_drop,← hw,hv]
        rfl
      rw [← hn] at hat
      rw [fromWord_fromWord] at hh
      simpa [hh] using List.findIdx_of_getElem?_eq_some hat
    rw [show maxArgs = n+(9-n)+1 by unfold maxArgs; omega,ht]
    nth_rewrite 2 [← List.take_append_drop n (words isSpaceChar line)]
    rw [spaced_append,spaced_append,List.append_cancel_left_eq,← hw,
      show 9-n+1 = n+(9-n)+1-2-n+2 by omega]
    exact tokenize_quoted_iff _ _ (fromWord_fromWord n line) hquote
  · rw [if_neg hc]
    refine tokenize_plain_iff 9 line ?_
    rcases Nat.lt_or_ge n 9 with h9 | h9
    · have hnil : fromWord n line = [] := by
        by_contra hne
        exact hc ⟨by unfold maxArgs; omega,hne⟩
      have hdrop := (tokenizeArgs_plain n 0 line (hbefore n le_rfl)).2
      rw [hnil,words_nil,eq_comm,List.drop_eq_nil_iff] at hdrop
      intro w hw
      refine hbefore n le_rfl w ?_
      rw [List.take_of_length_le hdrop]
      exact List.mem_of_mem_take hw
    · exact hbefore 9 h9

/-- The request of a line of words: its interface, its command word and the text that `write_cmd`
makes of the name of the request and the arguments. -/
def lineRequest (request : Bytes) (argv : List Bytes) :
    Option (Option Bytes × Bytes × Option Bytes) :=
  match (stripIfname argv).2 with
  | [] => none
  | name :: args => some ((stripIfname argv).1,name,writeCmd 4096 request args)

/-- The library's tokenizer reads the line within `argv` and makes the same request of it as the
tokenizer of the prompt. -/
def TokenizersAgree (request line : Bytes) : Prop :=
  ∃ argv, parseLine line = .ok argv ∧ lineRequest request argv = lineRequest request (tokenizeCmd line)

/-- The number of words in front of the arguments. -/
def headWords (ifname : Option Bytes) : ℕ := if ifname.isSome then 2 else 1

/-- The condition: the words fit `argv`, no tab ends one of the words before the arguments, and
the arguments are either too long for a request or at most as many as fit, without tabs and
single-spaced where the prompt keeps them as they are. -/
def TokenizersMeet (request line : Bytes) (ifname : Option Bytes) : Prop :=
  ¬ Overfills kMaxArgs line ∧
    (words isSpaceChar line).take (headWords ifname) = (words isBlank line).take (headWords ifname) ∧
    (4096 ≤ (request ++ spaced 32 ((lineWords line).drop (headWords ifname))).length ∨
      9 ∉ line ∧ (words isBlank line).length ≤ kMaxArgs ∧ KeptSingle line)

/-- The words in front of the arguments: the command word, after the interface if there is one. -/
def HeadOf (ifname : Option Bytes) (name : Bytes) (hd : List Bytes) : Prop :=
  match ifname with
  | none => hd = [name]
  | some v => ∃ first, hasPrefixCase first (ascii "IFNAME=") ∧ first.drop 7 = v ∧ hd = [first,name]

theorem stripIfname_split {ws : List Bytes} {ifname : Option Bytes} {name : Bytes}
    {args : List Bytes} (h : stripIfname ws = (ifname,name :: args)) :
    ∃ hd, HeadOf ifname name hd ∧ hd.length = headWords ifname ∧ ws = hd ++ args := by
  match ws with
  | [] => simp [stripIfname] at h
  | [first] =>
    simp only [stripIfname,Prod.mk.injEq,List.cons.injEq] at h
    obtain ⟨rfl,rfl,rfl⟩ := h
    exact ⟨[first],rfl,rfl,rfl⟩
  | first :: second :: rest =>
    simp only [stripIfname] at h
    split at h
    · rename_i hp
      simp only [Prod.mk.injEq,List.cons.injEq] at h
      obtain ⟨rfl,rfl,rfl⟩ := h
      exact ⟨[first,second],⟨first,hp,rfl,rfl⟩,rfl,rfl⟩
    · simp only [Prod.mk.injEq,List.cons.injEq] at h
      obtain ⟨rfl,rfl,rfl⟩ := h
      exact ⟨[first],rfl,rfl,rfl⟩

theorem stripIfname_join {ifname : Option Bytes} {name : Bytes} {hd : List Bytes}
    (h : HeadOf ifname name hd) (hn : 61 ∉ name) (args : List Bytes) :
    stripIfname (hd ++ args) = (ifname,name :: args) := by
  cases ifname with
  | none =>
    cases h
    cases args with
    | nil => rfl
    | cons a args => exact if_neg fun hp => hn (ifname_head hp).1
  | some v =>
    obtain ⟨first,hp,rfl,rfl⟩ := h
    exact if_pos hp

theorem isBlank_of_isSpaceChar (c : UInt8) (h : isSpaceChar c) : isBlank c := by
  simp only [isSpaceChar,isBlank] at h ⊢
  simp [h]

theorem isWord_isSpaceChar {w : Bytes} (h : IsWord isBlank w) : IsWord isSpaceChar w := by
  refine ⟨h.1,fun c hc => ?_⟩
  by_contra hs
  have hb := isBlank_of_isSpaceChar c (by simpa using hs)
  rw [h.2 c hc] at hb
  cases hb

theorem HeadOf.name_mem {ifname : Option Bytes} {name : Bytes} {hd : List Bytes}
    (h : HeadOf ifname name hd) : name ∈ hd := by
  cases ifname with
  | none => cases h; simp
  | some v => obtain ⟨first,-,-,rfl⟩ := h; simp

theorem HeadOf.head_ne {ifname : Option Bytes} {name : Bytes} {hd : List Bytes}
    (h : HeadOf ifname name hd) (hq : name.head? ≠ some 34) : ∀ w ∈ hd, w.head? ≠ some 34 := by
  cases ifname with
  | none =>
    cases h
    simpa using hq
  | some v =>
    obtain ⟨first,hp,-,rfl⟩ := h
    simpa using ⟨(ifname_head hp).2.1,hq⟩

/-- An entry that does not start with a quote is the next word of the line. -/
theorem tokenizeArgs_cons {room : ℕ} {line t : Bytes} {ts : List Bytes}
    (h : tokenizeArgs (room+2) line = t :: ts) (ht : t.head? ≠ some 34) :
    ∃ rest, ts = tokenizeArgs (room+1) rest ∧
      words isSpaceChar line = t :: words isSpaceChar rest ∧
      (IsWord isBlank t → words isBlank line = t :: words isBlank rest) := by
  have hne : fromWord 0 line ≠ [] := by
    intro hnil
    rw [tokenizeArgs_blank hnil] at h
    cases h
  rw [tokenizeArgs_step _ _ hne] at h
  cases h
  have hhead : (fromWord 0 line).head? ≠ some 34 := by
    intro hh
    have hpart : quotedPart (fromWord 0 line) ≠ [] := by
      intro hnil
      have hall := quoted_append (fromWord 0 line)
      rw [hnil,List.nil_append] at hall
      have hno := quote_not_mem_afterQuoted hh
      rw [hall] at hno
      exact hno (List.mem_of_head? hh)
    rw [← quoted_append (fromWord 0 line),List.head?_append_of_ne_nil _ hpart] at hh
    exact ht hh
  obtain ⟨hw,hwords,-⟩ := quotedPart_word hne hhead
  refine ⟨_,rfl,hwords,fun hb => ?_⟩
  rw [words_refine isBlank_of_isSpaceChar,hwords,List.flatMap_cons,words_of_word hb,
    words_refine isBlank_of_isSpaceChar (afterQuoted _)]
  rfl

theorem tokenizeCmd_head {line name : Bytes} {ifname : Option Bytes} {hd : List Bytes}
    (hhd : HeadOf ifname name hd) (hq : name.head? ≠ some 34)
    (h : (words isSpaceChar line).take (headWords ifname) = hd) :
    ∃ argv, tokenizeCmd line = hd ++ argv := by
  have hroom : headWords ifname+(9-headWords ifname)+1 = maxArgs := by
    cases ifname <;> rfl
  have ht := (tokenizeArgs_plain (headWords ifname) (9-headWords ifname) line
    (h ▸ hhd.head_ne hq)).1
  rw [hroom,h] at ht
  exact ⟨_,ht⟩

/-- The same words in front of the arguments are found by both tokenizers exactly when no tab ends
one of them. -/
theorem head_agrees {line name : Bytes} {ifname : Option Bytes} {args : List Bytes}
    (hstrip : stripIfname (words isBlank line) = (ifname,name :: args)) (hn : 34 ∉ name ∧ 61 ∉ name) :
    (∃ argv, stripIfname (tokenizeCmd line) = (ifname,name :: argv)) ↔
      (words isSpaceChar line).take (headWords ifname) =
        (words isBlank line).take (headWords ifname) := by
  have hparts := (stripIfname_words hstrip).1
  obtain ⟨hd,hhd,hlen,hws⟩ := stripIfname_split hstrip
  have hname : IsWord isBlank name := by
    refine isWord_of_mem_words (l := line) ?_
    rw [hws]
    exact List.mem_append_left args hhd.name_mem
  have hquote : name.head? ≠ some 34 := fun hh => hn.1 (List.mem_of_head? hh)
  constructor
  · rintro ⟨argv,ht⟩
    obtain ⟨hd',hhd',hlen',ht⟩ := stripIfname_split ht
    cases ifname with
    | none =>
      cases hhd'
      cases hhd
      obtain ⟨rest,-,hv,-⟩ := tokenizeArgs_cons ht hquote
      rw [hv,hws]
      rfl
    | some v =>
      obtain ⟨first,hp,hdrop,rfl⟩ := hhd'
      obtain ⟨-,hfq,hf7⟩ := ifname_head hp
      have hfirst : IsWord isBlank first := by
        refine ⟨?_,fun c hc => ?_⟩
        · rintro rfl
          exact absurd hp (by decide)
        · rw [← List.take_append_drop 7 first,List.mem_append] at hc
          rcases hc with hc | hc
          · exact hf7 c hc
          · exact hparts v rfl c (hdrop ▸ hc)
      obtain ⟨rest,hts,hv,hw⟩ := tokenizeArgs_cons ht hfq
      obtain ⟨rest',-,hv',hw'⟩ := tokenizeArgs_cons hts.symm hquote
      rw [hv,hv',hw hfirst,hw' hname]
      rfl
  · intro h
    have hhead : (words isBlank line).take (headWords ifname) = hd := by
      rw [hws,← hlen,List.take_left]
    obtain ⟨argv,ht⟩ := tokenizeCmd_head hhd hquote (h.trans hhead)
    exact ⟨argv,ht ▸ stripIfname_join hhd hn.2 argv⟩

/-- Without tabs both tokenizers look for the same words. -/
theorem words_noTab {line : Bytes} (h : 9 ∉ line) : words isSpaceChar line = words isBlank line := by
  refine words_congr fun c hc => ?_
  have h9 : c ≠ 9 := fun he => h (he ▸ hc)
  simp [isSpaceChar,isBlank,h9]

/-- The library sees only words of the prompt's line when both write the same. -/
theorem meet_of_spaced_eq {line : Bytes}
    (h : spaced 32 (tokenizeCmd line) = spaced 32 (lineWords line)) :
    9 ∉ line ∧ (words isBlank line).length ≤ kMaxArgs ∧ KeptSingle line := by
  have hword : ∀ w ∈ lineWords line, IsWord isBlank w := fun w hw =>
    isWord_of_mem_words (List.mem_of_mem_take hw)
  have hV : words isSpaceChar line = lineWords line := by
    have hT : words isSpaceChar ([] ++ spaced 32 (tokenizeCmd line)) = _ :=
      words_append_spaced rfl [] (tokenizeCmd line)
    rw [words_nil,List.nil_append,List.nil_append,h,
      words_spaced rfl fun w hw => isWord_isSpaceChar (hword w hw)] at hT
    exact (flatMap_tokenizeArgs 9 line).symm.trans hT.symm
  have h9 : 9 ∉ line := by
    intro hm
    have hf : (9 : UInt8) ∈ (words isSpaceChar line).flatten := by
      rw [flatten_words]
      exact List.mem_filter.mpr ⟨hm,rfl⟩
    rw [hV] at hf
    obtain ⟨w,hw,hc⟩ := List.mem_flatten.mp hf
    exact absurd ((hword w hw).2 9 hc) (by decide)
  refine ⟨h9,?_,(tokenizeCmd_single_iff line).mp (h.trans (by rw [hV]))⟩
  have hlen := congrArg List.length hV
  rw [words_noTab h9,lineWords,List.length_take] at hlen
  omega

/-- With the same words in front of them, the arguments of both tokenizers are written alike
exactly when they are too long or the line is the same for both. -/
theorem written_agrees {line request : Bytes} {hd argv args : List Bytes}
    (hp : lineWords line = hd ++ args) (ht : tokenizeCmd line = hd ++ argv) :
    writeCmd 4096 request args = writeCmd 4096 request argv ↔
      4096 ≤ (request ++ spaced 32 args).length ∨
        9 ∉ line ∧ (words isBlank line).length ≤ kMaxArgs ∧ KeptSingle line := by
  rw [writeCmd_eq,writeCmd_eq]
  by_cases hfit : (request ++ spaced 32 args).length < 4096
  · rw [if_pos hfit]
    constructor
    · intro h
      have hargs : spaced 32 args = spaced 32 argv := by
        split at h
        · simpa using h
        · cases h
      exact .inr (meet_of_spaced_eq (by rw [ht,hp,spaced_append,spaced_append,hargs]))
    · intro h
      obtain ⟨h9,h16,hk⟩ := h.resolve_left (by omega)
      have hall : spaced 32 (tokenizeCmd line) = spaced 32 (lineWords line) := by
        rw [(tokenizeCmd_single_iff line).mpr hk,words_noTab h9,lineWords,List.take_of_length_le h16]
      rw [ht,hp,spaced_append,spaced_append,List.append_cancel_left_eq] at hall
      rw [hall,if_pos hfit]
  · have h1 : (spaced 32 (lineWords line)).length ≤ (spaced 32 (words isBlank line)).length :=
      length_spaced_sublist 32 (List.take_sublist _ _)
    have h2 : (spaced 32 (words isBlank line)).length ≤ (spaced 32 (words isSpaceChar line)).length := by
      rw [words_refine isBlank_of_isSpaceChar line]
      exact length_spaced_flatMap 32 _
    have h3 : (spaced 32 (words isSpaceChar line)).length ≤ (spaced 32 (tokenizeCmd line)).length := by
      rw [← flatMap_tokenizeArgs 9 line]
      exact length_spaced_flatMap 32 _
    rw [hp,spaced_append,List.length_append] at h1
    rw [ht,spaced_append,List.length_append] at h3
    rw [if_neg hfit,if_neg]
    · simp only [true_iff]
      exact .inl (by omega)
    · simp only [List.length_append] at hfit ⊢
      omega

/-- A list of words names a handler, after an interface or without one. -/
def Names (cfg : BuildConfig) (h : HandlerWithResults) (ifname : Option Bytes)
    (argv : List Bytes) : Prop :=
  ∃ name args row, stripIfname argv = (ifname,name :: args) ∧
    selectCommand cfg name = .found row ∧ row.handlerWithResults = h

theorem lineRequest_eq {argv args : List Bytes} {ifname : Option Bytes} {name : Bytes}
    (h : stripIfname argv = (ifname,name :: args)) (request : Bytes) :
    lineRequest request argv = some (ifname,name,writeCmd 4096 request args) := by
  simp only [lineRequest,h]

theorem stripIfname_of_lineRequest {argv : List Bytes} {ifname : Option Bytes}
    {request name : Bytes} {text : Option Bytes}
    (h : lineRequest request argv = some (ifname,name,text)) :
    ∃ args, stripIfname argv = (ifname,name :: args) ∧ writeCmd 4096 request args = text := by
  cases hs : stripIfname argv with
  | mk v rest =>
    cases rest with
    | nil => simp [lineRequest,hs] at h
    | cons n args =>
      simp only [lineRequest,hs,Option.some.injEq,Prod.mk.injEq] at h
      obtain ⟨rfl,rfl,ht⟩ := h
      exact ⟨args,rfl,ht⟩

/-- When the library's words name a command, the condition is exact. -/
theorem agree_iff_meet {cfg : BuildConfig} {line name : Bytes} {ifname : Option Bytes}
    {args : List Bytes} {row : WpaCliCmd} (request : Bytes)
    (hstrip : stripIfname (words isBlank line) = (ifname,name :: args))
    (hsel : selectCommand cfg name = .found row) :
    TokenizersAgree request line ↔ TokenizersMeet request line ifname := by
  have hn := selectCommand_chars hsel
  have hquote : name.head? ≠ some 34 := fun hh => hn.1 (List.mem_of_head? hh)
  obtain ⟨args',hstrip',-⟩ := stripIfname_take hstrip
  obtain ⟨hd,hhd,hlen,hp⟩ := stripIfname_split hstrip'
  have hhead : (words isBlank line).take (headWords ifname) = hd := by
    have hk : headWords ifname ≤ kMaxArgs := by
      cases ifname <;> simp [headWords,kMaxArgs]
    have htake := congrArg (List.take (headWords ifname)) hp
    rwa [List.take_take,min_eq_left hk,← hlen,List.take_left,hlen] at htake
  have hdrop : (lineWords line).drop (headWords ifname) = args' := by
    rw [lineWords,hp,← hlen,List.drop_left]
  unfold TokenizersAgree TokenizersMeet parseLine
  rw [parseArgs_eq,hdrop]
  by_cases ho : Overfills kMaxArgs line
  · rw [if_pos ⟨ho,by decide⟩]
    constructor
    · rintro ⟨argv,he,-⟩
      cases he
    · intro hm
      exact absurd ho hm.1
  rw [if_neg (by simp [ho]),← head_agrees hstrip hn]
  constructor
  · rintro ⟨argv,he,hr⟩
    cases he
    rw [lineRequest_eq hstrip'] at hr
    obtain ⟨argv',hs,-⟩ := stripIfname_of_lineRequest hr.symm
    have hargv : ∃ argv, stripIfname (tokenizeCmd line) = (ifname,name :: argv) := ⟨argv',hs⟩
    obtain ⟨argv,ht⟩ :=
      tokenizeCmd_head hhd hquote (((head_agrees hstrip hn).mp hargv).trans hhead)
    rw [lineRequest_eq (ht ▸ stripIfname_join hhd hn.2 argv)] at hr
    simp only [Option.some.injEq,Prod.mk.injEq,true_and] at hr
    exact ⟨ho,hargv,(written_agrees hp ht).mp hr⟩
  · rintro ⟨-,hargv,hmeet⟩
    obtain ⟨argv,ht⟩ :=
      tokenizeCmd_head hhd hquote (((head_agrees hstrip hn).mp hargv).trans hhead)
    refine ⟨_,rfl,?_⟩
    rw [lineRequest_eq hstrip',lineRequest_eq (ht ▸ stripIfname_join hhd hn.2 argv),
      (written_agrees hp ht).mpr hmeet]

/-- Where the requests agree, a command that the prompt's words name is also named by the words of
the library. -/
theorem names_of_agree {cfg : BuildConfig} {h : HandlerWithResults} {line request : Bytes}
    {ifname : Option Bytes} (hn : Names cfg h ifname (tokenizeCmd line))
    (ha : TokenizersAgree request line) : Names cfg h ifname (words isBlank line) := by
  obtain ⟨name,args,row,hstrip,hsel,hrow⟩ := hn
  obtain ⟨argv,hp,hr⟩ := ha
  rw [lineRequest_eq hstrip] at hr
  obtain ⟨args',hstrip',-⟩ := stripIfname_of_lineRequest hr
  rw [parseLine,parseArgs_eq] at hp
  split at hp
  · cases hp
  · cases hp
    obtain ⟨hd,hhd,-,htake⟩ := stripIfname_split hstrip'
    have hwords : words isBlank line = hd ++ (args' ++ (words isBlank line).drop kMaxArgs) := by
      rw [← List.append_assoc,← htake,List.take_append_drop]
    exact ⟨name,_,row,(congrArg stripIfname hwords).trans
      (stripIfname_join hhd (selectCommand_chars hsel).2 _),hsel,hrow⟩

/-- A command named by the words of one of the tokenizers, a forwarding one in particular, gets
the same request from both exactly when the library's words name it and the condition
`TokenizersMeet` holds. -/
theorem tokenizersAgree_iff (cfg : BuildConfig) (line : CString) (h : HandlerWithResults)
    (request : Bytes)
    (hn : ∃ ifname, Names cfg h ifname (words isBlank line.bytes) ∨
      Names cfg h ifname (tokenizeCmd line.bytes)) :
    TokenizersAgree request line.bytes ↔
      ∃ ifname, Names cfg h ifname (words isBlank line.bytes) ∧
        TokenizersMeet request line.bytes ifname := by
  constructor
  · intro ha
    obtain ⟨ifname,hn⟩ := hn
    have hn : Names cfg h ifname (words isBlank line.bytes) :=
      hn.elim id fun hn => names_of_agree hn ha
    obtain ⟨name,args,row,hstrip,hsel,-⟩ := id hn
    exact ⟨ifname,hn,(agree_iff_meet request hstrip hsel).mp ha⟩
  · rintro ⟨ifname,⟨name,args,row,hstrip,hsel,-⟩,hmeet⟩
    exact (agree_iff_meet request hstrip hsel).mpr hmeet

theorem names_set_network (value : Bytes)
    (h : stripIfname (words isBlank (ascii "set_network 0 ssid " ++ value)) =
      (none,ascii "set_network" :: ascii "0" :: ascii "ssid" :: words isBlank value)) :
    Names (fun _ => false) .setNetwork none
      (words isBlank (ascii "set_network 0 ssid " ++ value)) :=
  ⟨_,_,_,h,select_set_network _,rfl⟩

/-- A quoted value with single spaces reaches the daemon unchanged. -/
theorem tokenizersAgree_quoted :
    TokenizersAgree (ascii "SET_NETWORK") (ascii "set_network 0 ssid \"a b\"") ∧
    ∃ ifname, Names (fun _ => false) .setNetwork ifname
        (words isBlank (ascii "set_network 0 ssid \"a b\"")) ∧
      TokenizersMeet (ascii "SET_NETWORK") (ascii "set_network 0 ssid \"a b\"") ifname := by
  have ha : TokenizersAgree (ascii "SET_NETWORK") (ascii "set_network 0 ssid \"a b\"") :=
    ⟨_,rfl,by decide⟩
  have hn := names_set_network (ascii "\"a b\"") (by decide)
  exact ⟨ha,(tokenizersAgree_iff _ ⟨ascii "set_network 0 ssid \"a b\"",by decide⟩ _ _
    ⟨none,.inl hn⟩).mp ha⟩

/-- Two spaces inside a quoted value become one. -/
theorem tokenizersAgree_twoSpaces :
    Names (fun _ => false) .setNetwork none
      (words isBlank (ascii "set_network 0 ssid \"a  b\"")) ∧
    ¬ TokenizersAgree (ascii "SET_NETWORK") (ascii "set_network 0 ssid \"a  b\"") := by
  refine ⟨names_set_network (ascii "\"a  b\"") (by decide),?_⟩
  rintro ⟨argv,hp,hr⟩
  have hline : parseLine (ascii "set_network 0 ssid \"a  b\"") =
      .ok [ascii "set_network",ascii "0",ascii "ssid",ascii "\"a",ascii "b\""] := by decide
  rw [hline] at hp
  cases hp
  revert hr
  decide

end WpaCliWrapper
