import Mathlib.Data.List.DropRight
import WpaCliWrapper.CText.Cells

/-! Texts with a cursor, and the array that an editor keeps one in: moves of cells that open or
close a gap, and the loops that look for the end of a word. -/
namespace CText

/-- What stands before a cursor and what stands after it. -/
structure Cursor (α : Type) where
  before : List α
  after : List α

variable {α : Type} {ε : Type*}

namespace Cursor
variable (z : Cursor α) (blank : α → Bool)

def text : List α := z.before ++ z.after

def insert (x : α) : Cursor α := ⟨z.before ++ [x],z.after⟩
def deleteLeft : Cursor α := ⟨z.before.dropLast,z.after⟩
def deleteRight : Cursor α := ⟨z.before,z.after.tail⟩
def clearLeft : Cursor α := ⟨[],z.after⟩
def clearRight : Cursor α := ⟨z.before,[]⟩

/-- The cursor among the cells of the text. -/
def moveTo (pos : ℕ) : Cursor α := ⟨z.text.take pos,z.text.drop pos⟩

/-- What stands in front of the word before the cursor; blanks behind that word belong to it. -/
def wordLeft : List α := (z.before.rdropWhile blank).rdropWhile (!blank ·)

/-- How far the word after the cursor reaches, with the blanks in front of it. -/
def wordRight : ℕ :=
  let word := z.after.dropWhile blank
  z.before.length+(z.after.takeWhile blank).length+(word.takeWhile (!blank ·)).length

def deleteWord : Cursor α := ⟨z.wordLeft blank,z.after⟩

/-- The word that ends at the cursor. -/
def word : List α := z.before.rtakeWhile (!blank ·)

/-- Another word in the place of that one. -/
def replaceWord (new : List α) : Cursor α := ⟨z.before.rdropWhile (!blank ·) ++ new,z.after⟩

section Texts

@[simp] theorem text_moveTo (pos : ℕ) : (z.moveTo pos).text = z.text :=
  List.take_append_drop pos z.text

theorem before_length_le : z.before.length ≤ z.text.length := by
  rw [text,List.length_append]
  exact Nat.le_add_right _ _

@[simp] theorem moveTo_self : z.moveTo z.before.length = z := by
  rw [moveTo,text,List.take_left,List.drop_left]

theorem before_word : z.before.rdropWhile (!blank ·) ++ z.word blank = z.before :=
  List.rdropWhile_append_rtakeWhile ..

theorem wordLeft_prefix : z.wordLeft blank <+: z.before :=
  (List.rdropWhile_prefix _ _).trans (List.rdropWhile_prefix _ _)

theorem text_deleteLeft : z.deleteLeft.text.Sublist z.text :=
  (List.dropLast_sublist _).append_right _

theorem text_deleteRight : z.deleteRight.text.Sublist z.text :=
  (List.tail_sublist _).append_left _

theorem text_clearLeft : z.clearLeft.text.Sublist z.text := List.sublist_append_right _ _

theorem text_clearRight : z.clearRight.text.Sublist z.text := by
  rw [clearRight,text,List.append_nil]
  exact List.sublist_append_left _ _

theorem text_deleteWord : (z.deleteWord blank).text.Sublist z.text :=
  (z.wordLeft_prefix blank).sublist.append_right _

end Texts

end Cursor

section Moves
variable (fault : ε)

/-- `memcpy` or `memmove` of some cells. -/
def copyInto (dst : List α) (pos : ℕ) (src : List α) (start n : ℕ) : Except ε (List α) :=
  if pos+n ≤ dst.length ∧ start+n ≤ src.length then
    .ok (dst.take pos ++ ((src.drop start).take n ++ dst.drop (pos+n)))
  else .error fault

/-- Some cells of an array. -/
def readCells (cells : List α) (pos n : ℕ) : Except ε (List α) :=
  if pos+n ≤ cells.length then .ok ((cells.drop pos).take n) else .error fault

/-- The loop `while (pos > 0 && p(cells[pos - 1])) pos--;`. -/
def backWhile (p : α → Bool) (cells : List α) : ℕ → Except ε ℕ
  | 0 => .ok 0
  | pos+1 => do if p (← load fault cells pos) then backWhile p cells pos else return pos+1

/-- The loop `while (pos < len && p(cells[pos])) pos++;`, with some cells in front of `len`. -/
def forwardWhile (p : α → Bool) (cells : List α) : ℕ → ℕ → Except ε ℕ
  | 0, pos => .ok pos
  | n+1, pos => do
    if p (← load fault cells pos) then forwardWhile p cells n (pos+1) else return pos

/-- Cells that are taken out: what follows them moves to their place. -/
theorem copyInto_close (a b c rest : List α) : ∃ rest',
    copyInto fault (a ++ (b ++ (c ++ rest))) a.length (a ++ (b ++ (c ++ rest)))
      (a.length+b.length) c.length = .ok (a ++ (c ++ rest')) ∧
      rest'.length = b.length+rest.length := by
  refine ⟨(b ++ (c ++ rest)).drop c.length,?_,by simp; omega⟩
  have hdrop : (a ++ (b ++ (c ++ rest))).drop (a.length+b.length) = c ++ rest := by
    rw [← List.append_assoc,← List.length_append,List.drop_left]
  rw [copyInto,if_pos ⟨by simp; omega,by simp; omega⟩,List.take_left,hdrop,List.take_left,
    List.drop_length_add_append]

/-- Cells that are made room for: what follows moves behind them. -/
theorem copyInto_open (a c rest : List α) {n : ℕ} (h : n ≤ rest.length) : ∃ gap,
    copyInto fault (a ++ (c ++ rest)) (a.length+n) (a ++ (c ++ rest)) a.length c.length =
      .ok (a ++ (gap ++ (c ++ rest.drop n))) ∧ gap.length = n := by
  refine ⟨(c ++ rest).take n,?_,by simp; omega⟩
  have htake : (a ++ (c ++ rest)).take (a.length+n) = a ++ (c ++ rest).take n :=
    List.take_length_add_append n
  have hdrop : (a ++ (c ++ rest)).drop (a.length+n+c.length) = rest.drop n := by
    rw [Nat.add_assoc,List.drop_length_add_append,Nat.add_comm n,List.drop_length_add_append]
  rw [copyInto,if_pos ⟨by simp; omega,by simp⟩,htake,hdrop,List.drop_left,List.take_left,
    List.append_assoc]

/-- Cells that are written over others. -/
theorem copyInto_over (a x rest : List α) (d s t : List α) (h : s.length = x.length) :
    copyInto fault (a ++ (x ++ rest)) a.length (d ++ (s ++ t)) d.length s.length =
      .ok (a ++ (s ++ rest)) := by
  rw [copyInto,if_pos ⟨by simp; omega,by simp⟩,List.take_left,List.drop_left,List.take_left,h,
    List.drop_length_add_append,List.drop_left]

variable {fault}

theorem readCells_append (d l rest : List α) :
    readCells fault (d ++ (l ++ rest)) d.length l.length = .ok l := by
  rw [readCells,if_pos (by simp),List.drop_left,List.take_left]

theorem backWhile_append (p : α → Bool) (l rest : List α) :
    backWhile fault p (l ++ rest) l.length = .ok (l.rdropWhile p).length := by
  induction l using List.reverseRecOn generalizing rest with
  | nil => rfl
  | append_singleton l x ih =>
    have hload : load fault (l ++ [x] ++ rest) l.length = .ok x := by
      rw [List.append_assoc]
      exact load_append l x rest
    rw [List.length_append,List.length_singleton,backWhile,hload,ok_bind]
    by_cases hx : p x
    · rw [if_pos hx,List.rdropWhile_concat_pos _ _ _ hx,List.append_assoc]
      exact ih ([x] ++ rest)
    · rw [if_neg hx,List.rdropWhile_concat_neg _ _ _ hx,List.length_append,List.length_singleton]
      rfl

theorem forwardWhile_append (p : α → Bool) (d l rest : List α) :
    forwardWhile fault p (d ++ (l ++ rest)) l.length d.length =
      .ok (d.length+(l.takeWhile p).length) := by
  induction l generalizing d with
  | nil => rfl
  | cons x l ih =>
    rw [List.length_cons,forwardWhile,List.cons_append,load_append,ok_bind]
    by_cases hx : p x
    · have hnext := ih (d ++ [x])
      rw [List.append_assoc,List.length_append,List.length_singleton] at hnext
      rw [if_pos hx,List.takeWhile_cons_of_pos hx]
      refine hnext.trans (congrArg _ ?_)
      rw [List.length_cons]
      omega
    · rw [if_neg hx,List.takeWhile_cons_of_neg hx]
      rfl

end Moves

end CText
