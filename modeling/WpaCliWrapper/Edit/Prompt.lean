import WpaCliWrapper.CText.Recent
import WpaCliWrapper.Edit.Buffer

/-! What the line editor is for: a line with a cursor, the last commands to choose from, and a
search among them. -/
namespace WpaCliWrapper
open CText

section Lines

/-- A line that the buffer has room for. -/
structure Text where
  bytes : Bytes
  fits : bytes.length < cmdBufLen
  noNul : 0 ∉ bytes
  deriving DecidableEq

theorem Text.bytes_injective : Function.Injective Text.bytes := by
  rintro ⟨a,_,_⟩ ⟨b,_,_⟩ rfl
  rfl

/-- Such a line with a cursor in it. -/
@[ext] structure Line where
  cursor : Cursor UInt8
  fits : cursor.text.length < cmdBufLen
  noNul : 0 ∉ cursor.text

namespace Line
variable (l : Line)

def text : Text := ⟨l.cursor.text,l.fits,l.noNul⟩

def ofText (t : Text) : Line where
  cursor := ⟨t.bytes,[]⟩
  fits := by rw [Cursor.text,List.append_nil]; exact t.fits
  noNul := by rw [Cursor.text,List.append_nil]; exact t.noNul

/-- Characters are taken out, or the cursor moves. -/
def shrink (z : Cursor UInt8) (h : z.text.Sublist l.cursor.text) : Line :=
  ⟨z,h.length_le.trans_lt l.fits,fun hmem => l.noNul (h.subset hmem)⟩

def moveTo (pos : ℕ) : Line := l.shrink (l.cursor.moveTo pos) (by rw [Cursor.text_moveTo])
def deleteLeft : Line := l.shrink _ l.cursor.text_deleteLeft
def deleteRight : Line := l.shrink _ l.cursor.text_deleteRight
def deleteWord : Line := l.shrink _ (l.cursor.text_deleteWord isSpaceChar)
def clearLeft : Line := l.shrink _ l.cursor.text_clearLeft
def clearRight : Line := l.shrink _ l.cursor.text_clearRight

def insert (c : UInt8) (hc : c ≠ 0) : Line :=
  if h : l.cursor.text.length+1 < cmdBufLen then
    ⟨l.cursor.insert c,by simpa [Cursor.insert,Cursor.text,Nat.add_right_comm,Nat.add_assoc] using h,
      by simpa [Cursor.insert,Cursor.text,hc.symm] using l.noNul⟩
  else l

/-- What the words that start like the one at the cursor have in common; one word that fits is
closed by a blank. Without more characters for several words, nothing changes. -/
def completion (words : List CString) : Option Bytes :=
  let word := l.cursor.word isSpaceChar
  let end_ := word.length+(cmdBufLen-1-l.cursor.text.length)
  match Edit.filterStrings words word with
  | [] => none
  | first :: others =>
    let n := maxCommonLength first.bytes (others.map CString.bytes)
    if n ≤ word.length ∧ others ≠ [] then none
    else some ((first.bytes.take n).take end_ ++ if others = [] ∧ n < end_ then [32] else [])

theorem completion_fits {words : List CString} {new : Bytes} (h : l.completion words = some new) :
    (l.cursor.replaceWord isSpaceChar new).text.length < cmdBufLen ∧ 0 ∉ new := by
  have hbefore : (l.cursor.before.rdropWhile (!isSpaceChar ·)).length+
      (l.cursor.word isSpaceChar).length = l.cursor.before.length := by
    rw [← List.length_append,Cursor.before_word]
  have hfits := l.fits
  simp only [completion] at h
  cases hfound : Edit.filterStrings words (l.cursor.word isSpaceChar) with
  | nil => rw [hfound] at h; cases h
  | cons first others =>
    rw [hfound] at h
    simp only at h
    split at h
    · cases h
    · cases h
      simp only [Cursor.text,Cursor.replaceWord,List.length_append,List.length_take] at hfits hbefore ⊢
      refine ⟨by split <;> simp <;> omega,fun hmem => ?_⟩
      rcases List.mem_append.mp hmem with hmem | hmem
      · exact first.noNul (List.mem_of_mem_take (List.mem_of_mem_take hmem))
      · split at hmem <;> simp at hmem

def complete (words : List CString) : Line :=
  match h : l.completion words with
  | none => l
  | some new =>
    ⟨l.cursor.replaceWord isSpaceChar new,(l.completion_fits h).1,fun hmem => by
      have hrest := l.noNul
      rw [Cursor.text,← l.cursor.before_word isSpaceChar] at hrest
      simp only [Cursor.text,Cursor.replaceWord,List.mem_append,not_or] at hmem hrest
      exact hmem.elim (fun hmem => hmem.elim hrest.1.1 (l.completion_fits h).2) hrest.2⟩

variable {l} {words : List CString}

theorem complete_none (h : l.completion words = none) : l.complete words = l := by
  unfold complete
  split
  · rfl
  · rename_i new hnew
    rw [h] at hnew
    cases hnew

theorem complete_some {new : Bytes} (h : l.completion words = some new) :
    (l.complete words).cursor = l.cursor.replaceWord isSpaceChar new := by
  unfold complete
  split
  · rename_i hnone
    rw [h] at hnone
    cases hnone
  · rename_i new' hnew
    rw [h] at hnew
    cases hnew
    rfl

end Line

end Lines

section Histories

/-- The last commands, each once and the newest first, with the one that is looked at. -/
structure Recall where
  entries : List Text
  short : entries.length ≤ historyMax
  nodup : entries.Nodup
  filled : ∀ t ∈ entries, t.bytes ≠ []
  curr : Option ℕ
  curr_lt : ∀ i ∈ curr, i < entries.length

namespace Recall
variable (r : Recall)

def empty : Recall := ⟨[],Nat.zero_le _,List.nodup_nil,by simp,none,by simp⟩

def add (t : Text) (ht : t.bytes ≠ []) : Recall where
  entries := Recent.keep historyMax r.entries t
  short := Recent.keep_length_le _ _ _
  nodup := (Recent.nodup_touch r.nodup t).sublist (List.take_sublist _ _)
  filled u hu := by
    rcases Recent.mem_touch.mp (List.mem_of_mem_take hu) with rfl | hu
    · exact ht
    · exact r.filled u hu
  curr := some 0
  curr_lt := by simp [Recent.keep,Recent.touch,historyMax]

/-- An empty line is no command. -/
def addLine (t : Text) : Recall := if h : t.bytes = [] then r else r.add t h

def goTo (i : ℕ) (h : i < r.entries.length) : Recall :=
  { r with curr := some i, curr_lt := by simpa using h }

end Recall

/-- A pattern, and how many of the entries with it are passed over. -/
structure Search where
  pattern : Bytes
  fits : pattern.length < searchBufLen
  skip : ℕ

namespace Search
variable (q : Search)

def start : Search := ⟨[],by decide,0⟩

def found (entries : List Text) : List Text :=
  if q.pattern = [] then [] else entries.filter fun t => (strstr q.pattern t.bytes).isSome

/-- The next entry with the pattern; after the last one the first comes again. -/
def next (entries : List Text) : Search :=
  { q with skip := if q.skip+1 < (q.found entries).length then q.skip+1 else 0 }

def char (c : UInt8) : Search :=
  if h : q.pattern.length+1 < searchBufLen then ⟨q.pattern ++ [c],by simpa using h,0⟩ else q

def backspace : Search :=
  if q.pattern = [] then q
  else ⟨q.pattern.dropLast,by rw [List.length_dropLast]; have := q.fits; omega,0⟩

end Search

end Histories

section Sequences

/-- The characters of an escape sequence so far. -/
structure EscSeq where
  bytes : Bytes
  fits : bytes.length ≤ 6
  noNul : 0 ∉ bytes

def EscSeq.start : EscSeq := ⟨[],by decide,by decide⟩

/-- A sequence with one more character. -/
def EscSeq.add (q : EscSeq) (c : UInt8) (h : q.bytes.length < 6) (hc : c ≠ 0) : EscSeq :=
  ⟨q.bytes ++ [c],by simpa using h,by simpa [hc.symm] using q.noNul⟩

theorem seqChar_ne_zero {c : UInt8} (h : isDigit c ∨ c = 59) : c ≠ 0 := by
  rintro rfl
  revert h
  decide

theorem firstChar_ne_zero {c : UInt8} (h : c = 91 ∨ c = 79) : c ≠ 0 := by
  rintro rfl
  revert h
  decide

/-- A byte inside a sequence. -/
def EscSeq.next (q : EscSeq) (c : UInt8) (h : q.bytes.length < 6) : Option EscSeq × EditKeyCode :=
  if q.bytes = [] then
    (if hc : c = 91 ∨ c = 79 then some (q.add c h (firstChar_ne_zero hc)) else none,.none)
  else if hc : isDigit c ∨ c = 59 then (some (q.add c h (seqChar_ne_zero hc)),.none)
  else (none,if c = 126 ∨ 65 ≤ c ∧ c ≤ 90 then escSeqToKey (q.bytes ++ [c]) else .none)

/-- The key of a byte, or of the sequence that it ends. -/
def readKey : Option EscSeq → UInt8 → Option EscSeq × EditKeyCode
  | none, c => (if c = 27 then some .start else none,plainKey c)
  | some q, c =>
    if c = 27 then (some .start,.none)
    else if h : q.bytes.length < 6 then q.next c h else (none,plainKey c)

end Sequences

/-- What a user of the prompt sees, and what was called so far. -/
structure Prompt where
  line : Line
  saved : Option Text
  past : Recall
  search : Option Search
  seq : Option EscSeq
  calls : List EditCall

namespace Prompt
variable (p : Prompt)

section Recalling

/-- The entry at a position, if there is one, becomes the line. -/
def recallAt (i : ℕ) : Prompt :=
  if h : i < p.past.entries.length then
    { p with past := p.past.goTo i h, line := .ofText p.past.entries[i] }
  else p

/-- The line before the history comes back, once. -/
def restore : Prompt :=
  { p with line := p.saved.elim p.line .ofText, saved := none }

def older : Prompt :=
  match p.past.curr with
  | none => p
  | some curr =>
    if curr = 0 ∧ p.saved = none then recallAt { p with saved := some p.line.text } curr
    else p.recallAt (curr+1)

def newer : Prompt :=
  match p.past.curr with
  | none => p.restore
  | some 0 => p.restore
  | some (curr+1) => p.recallAt curr

def enter : Prompt :=
  if h : p.line.text.bytes = [] then { p with saved := none }
  else
    { p with
      line := .ofText ⟨[],by decide,by decide⟩, saved := none, past := p.past.add p.line.text h
      calls := p.calls ++ [.cmd p.line.text.bytes] }

def tab (cb : EditCallbacks) : Prompt :=
  match cb.completion.bind fun f => f p.line.text.bytes p.line.cursor.before.length with
  | none => p
  | some words => { p with line := p.line.complete words }

end Recalling

section Searching
variable (q : Search)

/-- The entry that the search shows becomes the line. -/
def choose : Prompt :=
  { p with
    line := ((q.found p.past.entries)[q.skip]?).elim p.line .ofText, search := none }

def searching : EditKeyCode → Prompt × EditKeyCode
  | .down => ({ p with search := none },.eof)
  | .up => ({ p with search := none },.eof)
  | .ctrlH => ({ p with search := some q.backspace },.none)
  | .backspace => ({ p with search := some q.backspace },.none)
  | .ctrlR => ({ p with search := some (q.next p.past.entries) },.none)
  | .char c => (if 32 ≤ c then { p with search := some (q.char c) } else p,.none)
  | key =>
    if key ∈ [.enter,.ctrlJ,.left,.right,.home,.finish,.ctrlA,.ctrlE] then (p.choose q,key)
    else (p,.none)

end Searching

section Keys

theorem printable_ne_zero {c : UInt8} (h : 32 ≤ c) : c ≠ 0 := by
  rintro rfl
  revert h
  decide

def key (cb : EditCallbacks) : EditKeyCode → Prompt
  | .eof => { p with calls := p.calls ++ [.eof] }
  | .tab => p.tab cb
  | .up => p.older
  | .ctrlP => p.older
  | .down => p.newer
  | .ctrlN => p.newer
  | .right => { p with line := p.line.moveTo (p.line.cursor.before.length+1) }
  | .ctrlF => { p with line := p.line.moveTo (p.line.cursor.before.length+1) }
  | .left => { p with line := p.line.moveTo (p.line.cursor.before.length-1) }
  | .ctrlB => { p with line := p.line.moveTo (p.line.cursor.before.length-1) }
  | .ctrlRight => { p with line := p.line.moveTo (p.line.cursor.wordRight isSpaceChar) }
  | .ctrlLeft => { p with line := p.line.moveTo (p.line.cursor.wordLeft isSpaceChar).length }
  | .delete => { p with line := p.line.deleteRight }
  | .finish => { p with line := p.line.moveTo p.line.cursor.text.length }
  | .home => { p with line := p.line.moveTo 0 }
  | .ctrlA => { p with line := p.line.moveTo 0 }
  | .ctrlD =>
    if p.line.text.bytes = [] then { p with calls := p.calls ++ [.eof] }
    else { p with line := p.line.deleteRight }
  | .ctrlE => { p with line := p.line.moveTo p.line.cursor.text.length }
  | .ctrlH => { p with line := p.line.deleteLeft }
  | .backspace => { p with line := p.line.deleteLeft }
  | .enter => p.enter
  | .ctrlJ => p.enter
  | .ctrlK => { p with line := p.line.clearRight }
  | .ctrlR => { p with search := some .start }
  | .ctrlU => { p with line := p.line.clearLeft }
  | .ctrlW => { p with line := p.line.deleteWord }
  | .char c => if h : 32 ≤ c then { p with line := p.line.insert c (printable_ne_zero h) } else p
  | _ => p

def handle (cb : EditCallbacks) (key : EditKeyCode) : Prompt :=
  match p.search with
  | none => p.key cb key
  | some q =>
    let (p,key) := p.searching q key
    if key = .none ∨ key = .eof then p else p.key cb key

/-- One byte of the input, or its end. -/
def step (cb : EditCallbacks) (input : Option UInt8) : Prompt :=
  let (seq,key) := input.elim (p.seq,.eof) (readKey p.seq)
  handle { p with seq } cb key

def run (cb : EditCallbacks) (inputs : List (Option UInt8)) : Prompt :=
  inputs.foldl (fun p input => p.step cb input) p

end Keys

end Prompt

end WpaCliWrapper
