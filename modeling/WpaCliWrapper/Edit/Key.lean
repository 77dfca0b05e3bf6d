import WpaCliWrapper.CText.Cells
import WpaCliWrapper.CText.Decimal

/-! The keys of the line editor: `edit_read_key` and the escape sequences of a terminal. -/
namespace WpaCliWrapper
open CText

/-- An access outside an array, or a length below zero. -/
inductive EditFault where
  | outside
  | negative
  deriving DecidableEq

/-- `enum edit_key_code`; a value up to 255 is a character. -/
inductive EditKeyCode where
  | char (c : UInt8)
  | none | tab | up | down | right | left | enter | backspace | insert | delete | home | finish
  | pageUp | pageDown | f1 | f2 | f3 | f4 | f5 | f6 | f7 | f8 | f9 | f10 | f11 | f12
  | ctrlUp | ctrlDown | ctrlRight | ctrlLeft | ctrlA | ctrlB | ctrlD | ctrlE | ctrlF | ctrlG
  | ctrlH | ctrlJ | ctrlK | ctrlL | ctrlN | ctrlO | ctrlP | ctrlR | ctrlT | ctrlU | ctrlV | ctrlW
  | altUp | altDown | altRight | altLeft | shiftUp | shiftDown | shiftRight | shiftLeft
  | altShiftUp | altShiftDown | altShiftRight | altShiftLeft | eof
  deriving DecidableEq

section Sequences

/-- The five functions for the arrows differ in the keys that they give. -/
def arrow (a b c d : EditKeyCode) (last : UInt8) : EditKeyCode :=
  if last = 65 then a else if last = 66 then b else if last = 67 then c
  else if last = 68 then d else .none

def escSeqToKey1No : UInt8 → EditKeyCode := arrow .up .down .right .left
def escSeqToKey1Shift : UInt8 → EditKeyCode := arrow .shiftUp .shiftDown .shiftRight .shiftLeft
def escSeqToKey1Alt : UInt8 → EditKeyCode := arrow .altUp .altDown .altRight .altLeft
def escSeqToKey1AltShift : UInt8 → EditKeyCode :=
  arrow .altShiftUp .altShiftDown .altShiftRight .altShiftLeft
def escSeqToKey1Ctrl : UInt8 → EditKeyCode := arrow .ctrlUp .ctrlDown .ctrlRight .ctrlLeft

/-- `ESC-[<param1>;<param2><last>` -/
def escSeqToKey1 (param1 param2 : ℤ) (last : UInt8) : EditKeyCode :=
  if param1 < 0 ∧ param2 < 0 then escSeqToKey1No last
  else if param1 = 1 ∧ param2 = 2 then escSeqToKey1Shift last
  else if param1 = 1 ∧ param2 = 3 then escSeqToKey1Alt last
  else if param1 = 1 ∧ param2 = 4 then escSeqToKey1AltShift last
  else if param1 = 1 ∧ param2 = 5 then escSeqToKey1Ctrl last
  else if param2 < 0 then
    if last ≠ 126 then .none
    else if param1 = 2 then .insert else if param1 = 3 then .delete
    else if param1 = 5 then .pageUp else if param1 = 6 then .pageDown
    else if param1 = 15 then .f5 else if param1 = 17 then .f6 else if param1 = 18 then .f7
    else if param1 = 19 then .f8 else if param1 = 20 then .f9 else if param1 = 21 then .f10
    else if param1 = 23 then .f11 else if param1 = 24 then .f12 else .none
  else .none

/-- `ESC-O<param1>;<param2><last>` -/
def escSeqToKey2 (param1 param2 : ℤ) (last : UInt8) : EditKeyCode :=
  if 0 ≤ param1 ∨ 0 ≤ param2 then .none
  else if last = 70 then .finish else if last = 72 then .home
  else if last = 80 then .f1 else if last = 81 then .f2 else if last = 82 then .f3
  else if last = 83 then .f4 else .none

def escSeqToKey (seq : Bytes) : EditKeyCode :=
  let last := seq.getLast?.getD 0
  let params : ℤ × ℤ :=
    if isDigit (seq.getD 1 0) then
      (atoi (seq.drop 1),((seq.dropWhile (· != 59)).tail?).elim (-1) atoi)
    else (-1,-1)
  if seq.getD 0 0 = 91 then escSeqToKey1 params.1 params.2 last
  else if seq.getD 0 0 = 79 then escSeqToKey2 params.1 params.2 last
  else .none

end Sequences

section Reader

/-- `esc` is -1 outside an escape sequence. -/
structure KeyReader where
  esc : Option ℕ
  escBuf : Bytes

def keyReader : KeyReader := ⟨none,List.replicate 7 0⟩

/-- A key that was read. A sequence that means nothing is shown, and the line is drawn again. -/
structure KeyRead where
  reader : KeyReader
  shown : Bool
  key : EditKeyCode

/-- The `switch` over a byte outside a sequence. The byte 27 starts one. -/
def plainKey (c : UInt8) : EditKeyCode :=
  match c.toNat with
  | 1 => .ctrlA | 2 => .ctrlB | 4 => .ctrlD | 5 => .ctrlE | 6 => .ctrlF | 7 => .ctrlG
  | 8 => .ctrlH | 9 => .tab | 10 => .ctrlJ | 13 => .enter | 11 => .ctrlK | 12 => .ctrlL
  | 14 => .ctrlN | 15 => .ctrlO | 16 => .ctrlP | 18 => .ctrlR | 20 => .ctrlT | 21 => .ctrlU
  | 22 => .ctrlV | 23 => .ctrlW | 27 => .none | 127 => .backspace
  | _ => .char c

/-- A byte inside a sequence that has `esc` bytes. -/
def seqKey (escBuf : Bytes) (esc : ℕ) (c : UInt8) : Except EditFault KeyRead := do
  let escBuf ← store .outside escBuf esc c
  let escBuf ← store .outside escBuf (esc+1) 0
  if esc = 0 then
    let first ← load .outside escBuf 0
    if first ≠ 91 ∧ first ≠ 79 then return ⟨⟨none,escBuf⟩,true,.none⟩
    else return ⟨⟨some 1,escBuf⟩,false,.none⟩
  else if isDigit c ∨ c = 59 then return ⟨⟨some (esc+1),escBuf⟩,false,.none⟩
  else if c = 126 ∨ 65 ≤ c ∧ c ≤ 90 then
    let key := escSeqToKey (← readString .outside escBuf 0)
    return ⟨⟨none,escBuf⟩,key == .none,key⟩
  else return ⟨⟨none,escBuf⟩,true,.none⟩

/-- `edit_read_key` for one byte, or the end of the input. When a sequence is too long, the byte
that does not fit counts as a key. -/
def editReadKey (r : KeyReader) : Option UInt8 → Except EditFault KeyRead
  | none => .ok ⟨r,false,.eof⟩
  | some c =>
    match r.esc with
    | none => .ok ⟨⟨if c = 27 then some 0 else none,r.escBuf⟩,false,plainKey c⟩
    | some esc =>
      if c = 27 then .ok ⟨⟨some 0,r.escBuf⟩,false,.none⟩
      else if esc = 6 then .ok ⟨⟨none,r.escBuf⟩,true,plainKey c⟩
      else seqKey r.escBuf esc c

end Reader

end WpaCliWrapper
