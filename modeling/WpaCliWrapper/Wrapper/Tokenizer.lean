import WpaCliWrapper.CText.Bytes
import WpaCliWrapper.CText.Words

/-! The tokenizer `parse_line` of the library. -/
namespace WpaCliWrapper
open CText

/-- The accesses outside an object that the modelled code can make. After one of them C gives
no meaning to the rest of the run. -/
inductive Fault
  | tmpCmd
  | argv
  | networksBuf
  | networkId
  | string
  deriving DecidableEq

def isBlank (c : UInt8) : Bool := c == 32 || c == 9

def kMaxArgs : ℕ := 16

/-- The loop of `parse_line` with room for some more entries of `argv`. When the line ends
together with the last word that fits, the closing `argv[nargs] = NULL` is past the array. -/
def parseArgs : ℕ → Bytes → Except Fault (List Bytes)
  | 0, _ => .ok []
  | room+1, line =>
    let line := line.dropWhile isBlank
    if line = [] then .ok []
    else
      let arg := line.takeWhile (!isBlank ·)
      match line.dropWhile (!isBlank ·) with
      | [] => if room = 0 then .error .argv else .ok [arg]
      | _ :: line => do
        let argv ← parseArgs room line
        return arg :: argv

def parseLine (line : Bytes) : Except Fault (List Bytes) := parseArgs kMaxArgs line

example : parseLine (ascii " set_network\t0  ssid \"a  b\"") =
    .ok [ascii "set_network",ascii "0",ascii "ssid",ascii "\"a",ascii "b\""] := by decide

/-- The line ends inside its last word. -/
def EndsInWord (line : Bytes) : Prop := ∃ c ∈ line.getLast?, isBlank c = false

/-- The words of the line fill `argv` and nothing follows the last one. -/
def Overfills (room : ℕ) (line : Bytes) : Prop :=
  (words isBlank line).length = room ∧ EndsInWord line

instance (line : Bytes) : Decidable (EndsInWord line) :=
  inferInstanceAs (Decidable (∃ c ∈ line.getLast?, isBlank c = false))

instance (room : ℕ) (line : Bytes) : Decidable (Overfills room line) :=
  inferInstanceAs (Decidable (_ ∧ _))

theorem endsInWord_append (pre : Bytes) {line : Bytes} (h : line ≠ []) :
    EndsInWord (pre ++ line) ↔ EndsInWord line := by
  rw [EndsInWord,EndsInWord,List.getLast?_append,List.getLast?_eq_some_getLast h]
  rfl

theorem endsInWord_word (pre : Bytes) {w : Bytes} (h : IsWord isBlank w) :
    EndsInWord (pre ++ w) := by
  rw [endsInWord_append pre h.1]
  exact ⟨_,List.getLast?_eq_some_getLast h.1,h.2 _ (List.getLast_mem h.1)⟩

theorem not_endsInWord {line : Bytes} (h : ∀ c ∈ line, isBlank c) : ¬ EndsInWord line := by
  rintro ⟨c,hc,hb⟩
  rw [h c (List.mem_of_getLast? hc)] at hb
  cases hb

/-- After a word and the blank that ends it, the rest of the line decides. -/
theorem overfills_succ {pre w rest : Bytes} {s : UInt8} (hpre : ∀ c ∈ pre, isBlank c)
    (hw : IsWord isBlank w) (hs : isBlank s) (room : ℕ) :
    Overfills (room+1) (pre ++ (w ++ s :: rest)) ↔ Overfills room rest := by
  have hwords : words isBlank (pre ++ (w ++ s :: rest)) = w :: words isBlank rest := by
    rw [words_delims_append hpre,words_word_cons hw hs]
  have hend : EndsInWord (pre ++ (w ++ s :: rest)) ↔ EndsInWord (s :: rest) := by
    rw [← List.append_assoc,endsInWord_append _ (by simp)]
  unfold Overfills
  rw [hwords,hend,List.length_cons,Nat.add_right_cancel_iff]
  cases rest with
  | nil => simp [EndsInWord,hs]
  | cons c rest =>
    have hs : EndsInWord (s :: c :: rest) ↔ EndsInWord (c :: rest) :=
      endsInWord_append [s] (List.cons_ne_nil c rest)
    rw [hs]

theorem not_overfills_zero (line : Bytes) : ¬ Overfills 0 line := by
  rintro ⟨hw,he⟩
  exact not_endsInWord ((words_eq_nil_iff line).mp (List.length_eq_zero_iff.mp hw)) he

/-- `parse_line` finds the first words of the line, in order. -/
theorem parseArgs_eq (room : ℕ) (line : Bytes) :
    parseArgs room line =
      if Overfills room line ∧ 0 < room then .error .argv
      else .ok ((words isBlank line).take room) := by
  induction room generalizing line with
  | zero => simp [parseArgs]
  | succ room ih =>
    rcases first_word_cases (p := isBlank) line with hb | ⟨pre,w,hpre,hw,rfl | ⟨s,rest,hs,rfl⟩⟩
    · have hd : line.dropWhile isBlank = [] := List.dropWhile_eq_nil_iff.mpr hb
      have ho : ¬ Overfills (room+1) line := fun h => not_endsInWord hb h.2
      simp [parseArgs,hd,ho,words_of_delims hb]
    · have hd : (pre ++ w).dropWhile isBlank = w := by
        simpa using dropWhile_delims_append hpre hw []
      have hwords : words isBlank (pre ++ w) = [w] := by
        rw [words_delims_append hpre,words_of_word hw]
      have ho : Overfills (room+1) (pre ++ w) ↔ room = 0 := by
        simp [Overfills,hwords,endsInWord_word pre hw]
      simp only [parseArgs,hd,if_neg hw.1,dropWhile_word hw,takeWhile_word hw,ho,hwords]
      simp
    · have hd := dropWhile_delims_append hpre hw (s :: rest)
      have hne : w ++ s :: rest ≠ [] := by simp
      have hwords : words isBlank (pre ++ (w ++ s :: rest)) = w :: words isBlank rest := by
        rw [words_delims_append hpre,words_word_cons hw hs]
      simp only [parseArgs,hd,if_neg hne,dropWhile_word_append hw hs,takeWhile_word_append hw hs,
        ih rest,overfills_succ hpre hw hs,hwords]
      by_cases ho : Overfills room rest
      · have hroom : 0 < room := by
          rcases Nat.eq_zero_or_pos room with rfl | h
          · exact absurd ho (not_overfills_zero rest)
          · exact h
        simp [ho,hroom]
      · simp [ho]

end WpaCliWrapper
