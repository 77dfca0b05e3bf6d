import WpaCliWrapper.CText.CommonPrefix
import WpaCliWrapper.CText.Cursor
import WpaCliWrapper.Edit.Key
import WpaCliWrapper.Wrapper.History

/-! The line editor of the prompt, `src/utils/edit.c`: the buffer of the line, the history, and the
search in the history. -/
namespace WpaCliWrapper
open CText

def cmdBufLen : ℕ := 4096
def searchBufLen : ℕ := 21

/-- `edit_cmd_cb` may write into the buffer that it gets. `edit_completion_cb` returns NULL or some
strings. -/
structure EditCallbacks where
  cmd : Bytes → Bytes
  cmd_length : ∀ cells, (cmd cells).length = cells.length
  completion : Option (Bytes → ℕ → Option (List CString))

inductive EditCall where
  | cmd (line : Bytes)
  | eof
  deriving DecidableEq

/-- The variables of the file. The position in the history is that of `history_curr`. -/
structure Edit where
  cmdbuf : Bytes
  cmdbufPos : ℕ
  cmdbufLen : ℕ
  currbuf : Bytes
  currbufValid : Bool
  historyList : List Bytes
  historyCurr : Option ℕ
  searchBuf : Bytes
  searchSkip : ℕ
  search : Bool
  reader : KeyReader
  calls : List EditCall

/-- A difference that is used as a size. -/
def span (end_ start : ℕ) : Except EditFault ℕ :=
  if start ≤ end_ then .ok (end_-start) else .error .negative

namespace Edit
variable (s : Edit)

section Lines

/-- `edit_redraw`, as far as it writes into the buffer. -/
def redraw : Except EditFault Edit := do
  let cells ← store .outside s.cmdbuf s.cmdbufLen 0
  if s.cmdbufPos = s.cmdbufLen then return { s with cmdbuf := cells }
  else
    let tmp ← load .outside cells s.cmdbufPos
    let cells ← store .outside cells s.cmdbufPos 0
    let cells ← store .outside cells s.cmdbufPos tmp
    return { s with cmdbuf := cells }

def moveStart : Except EditFault Edit := redraw { s with cmdbufPos := 0 }
def moveEnd : Except EditFault Edit := redraw { s with cmdbufPos := s.cmdbufLen }

def moveLeft : Except EditFault Edit :=
  if 0 < s.cmdbufPos then redraw { s with cmdbufPos := s.cmdbufPos-1 } else .ok s

def moveRight : Except EditFault Edit :=
  if s.cmdbufPos < s.cmdbufLen then redraw { s with cmdbufPos := s.cmdbufPos+1 } else .ok s

/-- The two loops over the blanks and the word to the left. -/
def wordStart : Except EditFault ℕ := do
  let pos ← backWhile .outside isSpaceChar s.cmdbuf s.cmdbufPos
  backWhile .outside (!isSpaceChar ·) s.cmdbuf pos

def moveWordLeft : Except EditFault Edit := do redraw { s with cmdbufPos := ← s.wordStart }

def moveWordRight : Except EditFault Edit := do
  let pos ← forwardWhile .outside isSpaceChar s.cmdbuf (s.cmdbufLen-s.cmdbufPos) s.cmdbufPos
  let pos ← forwardWhile .outside (!isSpaceChar ·) s.cmdbuf (s.cmdbufLen-pos) pos
  redraw { s with cmdbufPos := pos }

def deleteLeft : Except EditFault Edit :=
  if s.cmdbufPos = 0 then .ok s
  else do
    let n ← span s.cmdbufLen s.cmdbufPos
    let cells ← copyInto .outside s.cmdbuf (s.cmdbufPos-1) s.cmdbuf s.cmdbufPos n
    redraw { s with cmdbuf := cells, cmdbufPos := s.cmdbufPos-1, cmdbufLen := s.cmdbufLen-1 }

def deleteCurrent : Except EditFault Edit :=
  if s.cmdbufPos = s.cmdbufLen then .ok s
  else do
    let n ← span s.cmdbufLen s.cmdbufPos
    let cells ← copyInto .outside s.cmdbuf s.cmdbufPos s.cmdbuf (s.cmdbufPos+1) n
    redraw { s with cmdbuf := cells, cmdbufLen := s.cmdbufLen-1 }

def deleteWord : Except EditFault Edit := do
  let pos ← s.wordStart
  let n ← span s.cmdbufLen s.cmdbufPos
  let cells ← copyInto .outside s.cmdbuf pos s.cmdbuf s.cmdbufPos n
  let gone ← span s.cmdbufPos pos
  let len ← span s.cmdbufLen gone
  redraw { s with cmdbuf := cells, cmdbufPos := pos, cmdbufLen := len }

def clearLeft : Except EditFault Edit :=
  if s.cmdbufPos = 0 then .ok s
  else do
    let n ← span s.cmdbufLen s.cmdbufPos
    let cells ← copyInto .outside s.cmdbuf 0 s.cmdbuf s.cmdbufPos n
    redraw { s with cmdbuf := cells, cmdbufPos := 0, cmdbufLen := n }

def clearRight : Except EditFault Edit :=
  if s.cmdbufPos = s.cmdbufLen then .ok s else redraw { s with cmdbufLen := s.cmdbufPos }

def insertChar (c : UInt8) : Except EditFault Edit :=
  if cmdBufLen-1 ≤ s.cmdbufLen then .ok s
  else if s.cmdbufLen = s.cmdbufPos then do
    let cells ← store .outside s.cmdbuf s.cmdbufPos c
    return { s with cmdbuf := cells, cmdbufPos := s.cmdbufPos+1, cmdbufLen := s.cmdbufLen+1 }
  else do
    let n ← span s.cmdbufLen s.cmdbufPos
    let cells ← copyInto .outside s.cmdbuf (s.cmdbufPos+1) s.cmdbuf s.cmdbufPos n
    let cells ← store .outside cells s.cmdbufPos c
    redraw { s with cmdbuf := cells, cmdbufPos := s.cmdbufPos+1, cmdbufLen := s.cmdbufLen+1 }

end Lines

section History

/-- The string of an entry replaces the line. -/
def setLine (str : Bytes) : Except EditFault Edit := do
  let cells ← copyInto .outside s.cmdbuf 0 str 0 str.length
  redraw { s with cmdbuf := cells, cmdbufPos := str.length, cmdbufLen := str.length }

def historyUse (curr : ℕ) : Except EditFault Edit :=
  match s.historyList[curr]? with
  | none => .error .outside
  | some str => setLine { s with historyCurr := some curr } str

def historyPrev : Except EditFault Edit :=
  match s.historyCurr with
  | none => .ok s
  | some curr =>
    if curr = 0 ∧ !s.currbufValid then do
      let cells ← store .outside s.cmdbuf s.cmdbufLen 0
      let currbuf ← copyInto .outside s.currbuf 0 cells 0 (s.cmdbufLen+1)
      historyUse { s with cmdbuf := cells, currbuf, currbufValid := true } curr
    else if curr+1 = s.historyList.length then .ok s
    else s.historyUse (curr+1)

/-- The line from before the history was looked at comes back. -/
def historyLeave : Except EditFault Edit :=
  if s.currbufValid then do
    let str ← readString .outside s.currbuf 0
    setLine { s with currbufValid := false } str
  else .ok s

def historyNext : Except EditFault Edit :=
  match s.historyCurr with
  | none => s.historyLeave
  | some 0 => s.historyLeave
  | some (curr+1) => s.historyUse curr

/-- `history_debug_dump` prints the saved line up to its NUL. -/
def historyDebugDump : Except EditFault Edit :=
  if s.currbufValid then do
    let _ ← readString .outside s.currbuf 0
    s.redraw
  else s.redraw

def processCmd (cb : EditCallbacks) : Except EditFault Edit :=
  if s.cmdbufLen = 0 then .ok { s with currbufValid := false }
  else do
    let cells ← store .outside s.cmdbuf s.cmdbufLen 0
    let str ← readString .outside cells 0
    return { s with
      cmdbuf := cb.cmd cells, cmdbufPos := 0, cmdbufLen := 0, currbufValid := false
      historyList := historyAdd s.historyList str
      historyCurr := if str = [] then s.historyCurr else some 0
      calls := s.calls ++ [.cmd str] }

end History

section Completion

def filterStrings (c : List CString) (str : Bytes) : List CString :=
  c.filter fun s => hasPrefixCase s.bytes str

def putSpace (addSpace : ℕ) (cells : Bytes) (pos : ℕ) : Except EditFault Bytes :=
  if addSpace = 0 then .ok cells else store .outside cells pos 32

/-- Some characters of a string, and a blank or not, behind the word at the cursor, which the string
starts with. -/
def putWord (start plen : ℕ) (str : Bytes) (len addSpace : ℕ) : Except EditFault Edit := do
  let n ← span s.cmdbufLen s.cmdbufPos
  let cells ← copyInto .outside s.cmdbuf (s.cmdbufPos+len+addSpace) s.cmdbuf s.cmdbufPos n
  let cells ← copyInto .outside cells start str 0 (plen+len)
  let cells ← putSpace addSpace cells (s.cmdbufPos+len)
  redraw { s with
    cmdbuf := cells, cmdbufPos := s.cmdbufPos+len+addSpace, cmdbufLen := s.cmdbufLen+len+addSpace }

/-- `complete` from the strings of the callback on, without the list of the possible words that a
second key prints. -/
def completeWith (c : List CString) : Except EditFault Edit := do
  let start ← backWhile .outside (!isSpaceChar ·) s.cmdbuf s.cmdbufPos
  let plen ← span s.cmdbufPos start
  let word ← readCells .outside s.cmdbuf start plen
  match filterStrings c word with
  | [] => return s
  | first :: others =>
    let common := maxCommonLength first.bytes (others.map CString.bytes)
    if common ≤ plen ∧ others ≠ [] then return s
    else
      let wanted ← span common plen
      let room ← span (cmdBufLen-1) s.cmdbufLen
      let len := if room < wanted then room else wanted
      s.putWord start plen first.bytes len (if others = [] ∧ len < room then 1 else 0)

def complete (cb : EditCallbacks) : Except EditFault Edit :=
  match cb.completion with
  | none => .ok s
  | some completion => do
    let cells ← store .outside s.cmdbuf s.cmdbufLen 0
    match completion (← readString .outside cells 0) s.cmdbufPos with
    | none => return { s with cmdbuf := cells }
    | some c => completeWith { s with cmdbuf := cells } c

end Completion

section Search

/-- The entries that match, of which some are skipped; without such a match the skips start over. -/
def searchFind : Option Bytes × Edit :=
  if s.searchBuf = [] then (none,s)
  else
    match (s.historyList.filter fun str => (strstr s.searchBuf str).isSome)[s.searchSkip]? with
    | some str => (some str,s)
    | none => (none,{ s with searchSkip := 0 })

def searchRedraw : Edit := s.searchFind.2

def searchStart : Edit := searchRedraw { s with searchBuf := [], searchSkip := 0, search := true }

/-- `os_strlcpy` of an entry into the line. -/
def copyLine (str : Bytes) : Except EditFault Edit := do
  let str := clip cmdBufLen str
  let cells ← copyInto .outside s.cmdbuf 0 str 0 str.length
  let cells ← store .outside cells str.length 0
  let str ← readString .outside cells 0
  redraw { s with cmdbuf := cells, cmdbufPos := str.length, cmdbufLen := str.length }

def searchStop : Except EditFault Edit :=
  let (found,s) := s.searchFind
  let s := searchRedraw { s with searchBuf := [] }
  match found with
  | none => s.redraw
  | some str => s.copyLine str

def searchCancel : Except EditFault Edit := redraw (searchRedraw { s with searchBuf := [] })

def searchBackspace : Edit :=
  if s.searchBuf = [] then s
  else searchRedraw { s with searchBuf := s.searchBuf.dropLast, searchSkip := 0 }

/-- `Ctrl-R` in an empty search counts without bound. In the source `search_skip` is an `int`, and here
a number. -/
def searchNext : Edit := searchRedraw (searchFind { s with searchSkip := s.searchSkip+1 }).2

def searchChar (c : UInt8) : Except EditFault Edit :=
  if s.searchBuf.length = searchBufLen-1 then .ok s
  else if s.searchBuf.length+1 < searchBufLen then
    .ok (searchRedraw { s with searchBuf := s.searchBuf ++ [c], searchSkip := 0 })
  else .error .outside

/-- A key while the search is on, and the key that is left for the line. -/
def searchKey : EditKeyCode → Except EditFault (Edit × EditKeyCode)
  | .enter => do return (← s.searchStop,.enter)
  | .ctrlJ => do return (← s.searchStop,.ctrlJ)
  | .left => do return (← s.searchStop,.left)
  | .right => do return (← s.searchStop,.right)
  | .home => do return (← s.searchStop,.home)
  | .finish => do return (← s.searchStop,.finish)
  | .ctrlA => do return (← s.searchStop,.ctrlA)
  | .ctrlE => do return (← s.searchStop,.ctrlE)
  | .down => do return (← s.searchCancel,.eof)
  | .up => do return (← s.searchCancel,.eof)
  | .ctrlH => .ok (s.searchBackspace,.none)
  | .backspace => .ok (s.searchBackspace,.none)
  | .ctrlR => .ok (s.searchNext,.none)
  | .char c => if 32 ≤ c then do return (← s.searchChar c,.none) else .ok (s,.none)
  | _ => .ok (s,.none)

end Search

section Keys

/-- The `switch` of `edit_read_char`. -/
def editKey (cb : EditCallbacks) : EditKeyCode → Except EditFault Edit
  | .eof => .ok { s with calls := s.calls ++ [.eof] }
  | .tab => s.complete cb
  | .up => s.historyPrev
  | .ctrlP => s.historyPrev
  | .down => s.historyNext
  | .ctrlN => s.historyNext
  | .right => s.moveRight
  | .ctrlF => s.moveRight
  | .left => s.moveLeft
  | .ctrlB => s.moveLeft
  | .ctrlRight => s.moveWordRight
  | .ctrlLeft => s.moveWordLeft
  | .delete => s.deleteCurrent
  | .finish => s.moveEnd
  | .home => s.moveStart
  | .ctrlA => s.moveStart
  | .f2 => s.historyDebugDump
  | .ctrlD =>
    if 0 < s.cmdbufLen then s.deleteCurrent else .ok { s with calls := s.calls ++ [.eof] }
  | .ctrlE => s.moveEnd
  | .ctrlH => s.deleteLeft
  | .backspace => s.deleteLeft
  | .enter => s.processCmd cb
  | .ctrlJ => s.processCmd cb
  | .ctrlK => s.clearRight
  | .ctrlL => s.redraw
  | .ctrlR => .ok s.searchStart
  | .ctrlU => s.clearLeft
  | .ctrlW => s.deleteWord
  | .char c => if 32 ≤ c then s.insertChar c else .ok s
  | _ => .ok s

/-- `edit_read_char` from the key on. The end of the input does not leave a search. -/
def handleKey (cb : EditCallbacks) (key : EditKeyCode) : Except EditFault Edit :=
  if s.search then do
    let (s,key) ← s.searchKey key
    if key = .none then return s
    else if key = .eof then return { s with search := false }
    else editKey { s with search := false } cb key
  else s.editKey cb key

/-- Where a message about a sequence was shown, the line is drawn again. -/
def redrawIf (shown : Bool) : Except EditFault Edit := if shown then s.redraw else .ok s

/-- `edit_read_char` for one byte of the input, or its end. -/
def editReadChar (cb : EditCallbacks) (input : Option UInt8) : Except EditFault Edit := do
  let ⟨reader,shown,key⟩ ← editReadKey s.reader input
  let s ← redrawIf { s with reader } shown
  s.handleKey cb key

/-- All bytes of an input. -/
def editRun (cb : EditCallbacks) : Edit → List (Option UInt8) → Except EditFault Edit
  | s, [] => .ok s
  | s, input :: inputs => do editRun cb (← s.editReadChar cb input) inputs

end Keys

end Edit

section Sessions

/-- What the calls of `fgets` with an array of `size` cells put into it one after another. -/
def fgetsAll (size : ℕ) : Bytes → Bytes → List Bytes
  | buf, [] => if buf = [] then [] else [buf]
  | buf, c :: file =>
    if c = 10 ∨ buf.length+1 = size-1 then (buf ++ [c]) :: fgetsAll size [] file
    else fgetsAll size (buf ++ [c]) file

/-- The lines that `history_read` adds; a line ends at its first NUL, carriage return or newline. -/
def historyRead (file : Bytes) : List Bytes :=
  (fgetsAll cmdBufLen [] file).map fun buf => (cstr buf).takeWhile fun c => c != 13 && c != 10

/-- The file of `history_write`, with the filter of the prompt. -/
def historyFile (cfg : BuildConfig) (history : List Bytes) : Bytes :=
  (historyWrite cfg history).flatMap (· ++ [10])

/-- `edit_init`, with the history file. -/
def editInit (file : Bytes) : Edit where
  cmdbuf := List.replicate cmdBufLen 0
  cmdbufPos := 0
  cmdbufLen := 0
  currbuf := List.replicate cmdBufLen 0
  currbufValid := false
  historyList := (historyRead file).foldl historyAdd []
  historyCurr := if (historyRead file).all (· == []) then none else some 0
  searchBuf := []
  searchSkip := 0
  search := false
  reader := keyReader
  calls := []

end Sessions

end WpaCliWrapper
