import WpaCliWrapper.CText.Bytes
import WpaCliWrapper.CText.Words

/-! The command line helpers of `src/common/cli.c`: text lists, `write_cmd` and the tokenizer of
the interactive prompt. -/
namespace WpaCliWrapper
open CText

/-- `cli_txt_list_add`: a text already present is not added again; `dl_list_add` inserts at the
head. -/
def cliTxtListAdd (l : List Bytes) (txt : Bytes) : List Bytes := if txt ∈ l then l else txt :: l

/-- `cli_txt_list_add_word`: the text before the first separator. -/
def cliTxtListAddWord (l : List Bytes) (txt : Bytes) (separator : UInt8) : List Bytes :=
  cliTxtListAdd l (txt.takeWhile (· != separator))

/-- The loop of `write_cmd` over the arguments; the text must stay shorter than the buffer. -/
def writeArgs (buflen : ℕ) : Bytes → List Bytes → Option Bytes
  | text, [] => some text
  | text, arg :: argv =>
    let text := text ++ 32 :: arg
    if text.length < buflen then writeArgs buflen text argv else none

/-- The text left in the buffer by `write_cmd`, or its failure "Too long command". -/
def writeCmd (buflen : ℕ) (cmd : Bytes) (argv : List Bytes) : Option Bytes :=
  if cmd.length < buflen then writeArgs buflen cmd argv else none

def maxArgs : ℕ := 10

/-- The only delimiter of `tokenize_cmd`. -/
def isSpaceChar (c : UInt8) : Bool := c == 32

/-- The end of a word in `tokenize_cmd`: a word that starts with a double quote extends at least
to the last double quote of the line. -/
def quotedLength (pos : Bytes) : ℕ :=
  if pos.head? = some 34 then pos.length-(pos.reverse.takeWhile (· != 34)).length else 0

/-- The loop of `tokenize_cmd` with room for some more entries of `argv`: the last entry is not
terminated and keeps the whole tail of the line. -/
def tokenizeArgs : ℕ → Bytes → List Bytes
  | 0, _ => []
  | room+1, line =>
    let pos := line.dropWhile isSpaceChar
    if pos = [] then []
    else if room = 0 then [pos]
    else
      let quoted := pos.take (quotedLength pos)
      let rest := pos.drop (quotedLength pos)
      (quoted ++ rest.takeWhile (!isSpaceChar ·)) ::
        tokenizeArgs room (rest.dropWhile (!isSpaceChar ·)).tail

def tokenizeCmd (cmd : Bytes) : List Bytes := tokenizeArgs maxArgs cmd

example : tokenizeCmd (ascii "set_network 1 ssid \"a  b\"") =
    [ascii "set_network",ascii "1",ascii "ssid",ascii "\"a  b\""] := by decide

theorem mem_cliTxtListAdd {l : List Bytes} {txt t : Bytes} :
    t ∈ cliTxtListAdd l txt ↔ t = txt ∨ t ∈ l := by
  unfold cliTxtListAdd
  split
  · rename_i hmem
    refine ⟨.inr,fun ht => ht.elim (fun heq => ?_) id⟩
    rwa [heq]
  · exact List.mem_cons

theorem cliTxtListAdd_nodup {l : List Bytes} (h : l.Nodup) (txt : Bytes) :
    (cliTxtListAdd l txt).Nodup := by
  unfold cliTxtListAdd
  split
  · exact h
  · rename_i hmem
    exact List.nodup_cons.mpr ⟨hmem,h⟩

/-- Adding text after text to a list without duplicates: what it has afterwards, each once. -/
theorem foldl_cliTxtListAdd (txts : List Bytes) {l : List Bytes} (h : l.Nodup) :
    (txts.foldl cliTxtListAdd l).Nodup ∧
      ∀ t, t ∈ txts.foldl cliTxtListAdd l ↔ t ∈ l ∨ t ∈ txts := by
  induction txts generalizing l with
  | nil => exact ⟨h,by simp⟩
  | cons txt txts ih =>
    obtain ⟨hnodup,hmem⟩ := ih (cliTxtListAdd_nodup h txt)
    refine ⟨hnodup,fun t => ?_⟩
    rw [List.foldl_cons,hmem,mem_cliTxtListAdd,List.mem_cons,or_comm (a := t = txt),or_assoc]

theorem foldl_cliTxtListAddWord (txts : List Bytes) (separator : UInt8) (l : List Bytes) :
    txts.foldl (cliTxtListAddWord · · separator) l =
      (txts.map (·.takeWhile (· != separator))).foldl cliTxtListAdd l := List.foldl_map.symm

theorem writeArgs_eq (buflen : ℕ) (argv : List Bytes) (text : Bytes) (h : text.length < buflen) :
    writeArgs buflen text argv =
      if (text ++ spaced 32 argv).length < buflen then some (text ++ spaced 32 argv) else none := by
  induction argv generalizing text with
  | nil => simp [writeArgs,h]
  | cons arg argv ih =>
    have hassoc : text ++ spaced 32 (arg :: argv) = (text ++ 32 :: arg) ++ spaced 32 argv := by simp
    rw [hassoc]
    by_cases hlt : (text ++ 32 :: arg).length < buflen
    · rw [writeArgs,if_pos hlt,ih _ hlt]
    · have hge : ¬ ((text ++ 32 :: arg) ++ spaced 32 argv).length < buflen := by
        rw [List.length_append]
        omega
      rw [writeArgs,if_neg hlt,if_neg hge]

/-- `write_cmd` writes the command and its arguments with single blanks, if they fit. -/
theorem writeCmd_eq (buflen : ℕ) (cmd : Bytes) (argv : List Bytes) :
    writeCmd buflen cmd argv =
      if (cmd ++ spaced 32 argv).length < buflen then some (cmd ++ spaced 32 argv) else none := by
  unfold writeCmd
  by_cases h : cmd.length < buflen
  · rw [if_pos h,writeArgs_eq _ _ _ h]
  · have hge : ¬ (cmd ++ spaced 32 argv).length < buflen := by
      rw [List.length_append]
      omega
    rw [if_neg h,if_neg hge]

end WpaCliWrapper
