import Mathlib.Data.List.Infix
import Mathlib.Data.Nat.Bitwise
import Mathlib.Logic.Function.Basic
import Mathlib.Tactic.Common

/-! Bit arrays in memory that nobody has cleared, beside maps from an index to a bit. -/
namespace WpaCliWrapper
namespace Bitarray

/-- The block of an array. -/
abbrev Words := List (BitVec 32)

def bitarrayShift : ℕ := 5
def bitarrayMask : ℕ := 2^bitarrayShift-1

/-- How many words are asked for: the sum is an `unsigned int`. -/
def wordsFor (nBits : ℕ) : ℕ := ((nBits+bitarrayMask)%2^32) >>> bitarrayShift

section Memory

/-- A word with zero in one of its bytes, counted from the least significant one. -/
def clearByte (word : BitVec 32) (k : Fin 4) : BitVec 32 :=
  word &&& ~~~((BitVec.allOnes 8).setWidth 32 <<< (8*k.val))

variable (order : Fin 4 → Fin 4)

/-- Where in the block a byte of a word is. -/
def address (w : ℕ) (k : Fin 4) : ℕ := 4*w+order k

/-- `memset` with zero, from one byte of the block to another. -/
def memsetZero (start stop : ℕ) (ba : Words) : Option Words :=
  if stop ≤ 4*ba.length then
    some (ba.mapIdx fun w word => [0,1,2,3].foldl (fun word k =>
      if start ≤ address order w k ∧ address order w k < stop then clearByte word k else word) word)
  else none

def malloc (fresh : ℕ → BitVec 32) (size : ℕ) : Words := (List.range size).map fresh

def realloc (fresh : ℕ → BitVec 32) (ba : Words) (size : ℕ) : Words :=
  (List.range size).map fun w => ba.getD w (fresh w)

/-- The number of words is given to `memset` as a number of bytes. -/
def bitarrayInitZero (fresh : ℕ → BitVec 32) (nBits : ℕ) : Option Words :=
  let size := wordsFor nBits
  memsetZero order 0 size (malloc fresh size)

def bitarrayExpand (fresh : ℕ → BitVec 32) (ba : Words) (nBitsOld nBitsNew : ℕ) : Option Words :=
  let szOld := wordsFor nBitsOld
  let szNew := wordsFor nBitsNew
  if szNew ≤ szOld then some ba
  else memsetZero order (4*szOld) (4*szOld+4*(szNew-szOld)) (realloc fresh ba szNew)

def bitarraySet (ba : Words) (bit : ℕ) : Option Words := do
  let word ← ba[bit >>> bitarrayShift]?
  return ba.set (bit >>> bitarrayShift) (word ||| 1#32 <<< (bit &&& bitarrayMask))

def bitarrayClear (ba : Words) (bit : ℕ) : Option Words := do
  let word ← ba[bit >>> bitarrayShift]?
  return ba.set (bit >>> bitarrayShift) (word &&& ~~~(1#32 <<< (bit &&& bitarrayMask)))

def bitarrayIsSet (ba : Words) (bit : ℕ) : Option (BitVec 32) := do
  let word ← ba[bit >>> bitarrayShift]?
  return word &&& 1#32 <<< (bit &&& bitarrayMask)

end Memory

inductive Op where
  | set (bit : ℕ)
  | clear (bit : ℕ)
  | isSet (bit : ℕ)
  | expand (nBitsNew : ℕ)
deriving DecidableEq

/-- What `bitarray_is_set` returns in a run. Each allocation finds its own contents in memory. -/
def run (order : Fin 4 → Fin 4) (memory : ℕ → ℕ → BitVec 32) (nBits : ℕ) (ba : Words) :
    List Op → Option (List (BitVec 32))
  | [] => some []
  | .set bit :: ops => do run order memory nBits (← bitarraySet ba bit) ops
  | .clear bit :: ops => do run order memory nBits (← bitarrayClear ba bit) ops
  | .isSet bit :: ops => do
    let value ← bitarrayIsSet ba bit
    return value :: (← run order memory nBits ba ops)
  | .expand nBitsNew :: ops => do
    let ba ← bitarrayExpand order (memory 0) ba nBits nBitsNew
    run order (fun k => memory (k+1)) (max nBits nBitsNew) ba ops

/-- Bits are below the current size and of type `int`, sizes of type `unsigned int`. -/
def Admissible (nBits : ℕ) : List Op → Prop
  | [] => nBits < 2^32
  | .set bit :: ops => bit < nBits ∧ bit < 2^31 ∧ Admissible nBits ops
  | .clear bit :: ops => bit < nBits ∧ bit < 2^31 ∧ Admissible nBits ops
  | .isSet bit :: ops => bit < nBits ∧ bit < 2^31 ∧ Admissible nBits ops
  | .expand nBitsNew :: ops => nBitsNew < 2^32 ∧ Admissible (max nBits nBitsNew) ops

section Map

/-- What the operations do to a map from an index to a bit. -/
def answers (m : ℕ → Bool) : List Op → List Bool
  | [] => []
  | .set bit :: ops => answers (Function.update m bit true) ops
  | .clear bit :: ops => answers (Function.update m bit false) ops
  | .isSet bit :: ops => m bit :: answers m ops
  | .expand _ :: ops => answers m ops

/-- The bits that are read before they are set or cleared. -/
def firstReads (written : List ℕ) : List Op → List ℕ
  | [] => []
  | .set bit :: ops => firstReads (bit :: written) ops
  | .clear bit :: ops => firstReads (bit :: written) ops
  | .isSet bit :: ops => if bit ∈ written then firstReads written ops
    else bit :: firstReads written ops
  | .expand _ :: ops => firstReads written ops

theorem update_agree {m m' : ℕ → Bool} {written : List ℕ} (h : ∀ b ∈ written, m b = m' b)
    (bit : ℕ) (v : Bool) : ∀ b ∈ bit :: written,
      Function.update m bit v b = Function.update m' bit v b := by
  intro b hb
  by_cases hbit : b = bit
  · rw [hbit,Function.update_self,Function.update_self]
  · rw [Function.update_of_ne hbit,Function.update_of_ne hbit]
    exact h b ((List.mem_cons.mp hb).resolve_left hbit)

theorem not_mem_firstReads {b : ℕ} {written : List ℕ} {ops : List Op} (hb : b ∈ written) :
    b ∉ firstReads written ops := by
  induction ops generalizing written with
  | nil => exact List.not_mem_nil
  | cons op ops ih =>
    cases op with
    | set bit => exact ih (List.mem_cons_of_mem bit hb)
    | clear bit => exact ih (List.mem_cons_of_mem bit hb)
    | isSet bit =>
      rw [firstReads]
      split
      · exact ih hb
      · rename_i hbit
        rw [List.mem_cons,not_or]
        exact ⟨fun h => hbit (h ▸ hb),ih hb⟩
    | expand n => exact ih hb

/-- Two maps answer alike exactly if they agree where they are read before they are written. -/
theorem answers_eq_iff {m m' : ℕ → Bool} {written : List ℕ} {ops : List Op}
    (h : ∀ b ∈ written, m b = m' b) :
    answers m ops = answers m' ops ↔ ∀ b ∈ firstReads written ops, m b = m' b := by
  induction ops generalizing m m' written with
  | nil => simp [answers,firstReads]
  | cons op ops ih =>
    -- a bit that was written is no first read, so the update does not matter for the others
    have hwrite : ∀ bit v, (∀ b ∈ firstReads (bit :: written) ops,
        Function.update m bit v b = Function.update m' bit v b) ↔
          ∀ b ∈ firstReads (bit :: written) ops, m b = m' b := fun bit v => by
      refine forall₂_congr fun b hb => ?_
      have hne : b ≠ bit := fun hbit => not_mem_firstReads (hbit ▸ List.mem_cons_self) hb
      rw [Function.update_of_ne hne,Function.update_of_ne hne]
    cases op with
    | set bit => exact (ih (update_agree h bit true)).trans (hwrite bit true)
    | clear bit => exact (ih (update_agree h bit false)).trans (hwrite bit false)
    | isSet bit =>
      rw [answers,answers,firstReads,List.cons.injEq,ih h]
      split
      · rename_i hbit
        exact and_iff_right (h bit hbit)
      · rw [List.forall_mem_cons]
    | expand n => exact ih h

end Map

section Bits

/-- The bits of a block. There is nothing outside of it. -/
def bits (ba : Words) (b : ℕ) : Bool := (ba.getD (b/32) 0#32).getLsbD (b%32)

theorem shift_eq (b : ℕ) : b >>> bitarrayShift = b/32 := Nat.shiftRight_eq_div_pow b 5

theorem mask_eq (b : ℕ) : b &&& bitarrayMask = b%32 := Nat.and_two_pow_sub_one_eq_mod b 5

theorem getLsbD_mask (b i : ℕ) : (1#32 <<< (b%32)).getLsbD i = decide (i = b%32) := by
  have hb : b%32 < 32 := Nat.mod_lt b (by decide)
  rw [BitVec.getLsbD_shiftLeft,BitVec.getLsbD_one]
  by_cases hi : i = b%32
  · simp [hi,hb]
  · simp [hi]
    omega

theorem bits_eq {ba : Words} {b : ℕ} (h : b/32 < ba.length) :
    bits ba b = ba[b/32].getLsbD (b%32) := by
  rw [bits,List.getD_eq_getElem _ _ h]

theorem bits_outside {ba : Words} {b : ℕ} (h : ba.length ≤ b/32) : bits ba b = false := by
  rw [bits,List.getD_eq_default _ _ h]
  exact BitVec.getLsbD_zero

/-- One bit of one word is written. -/
theorem bits_set {ba : Words} {bit : ℕ} (h : bit/32 < ba.length) {word : BitVec 32} {v : Bool}
    (hword : ∀ i < 32, word.getLsbD i =
      if i = bit%32 then v else ba[bit/32].getLsbD i) :
    bits (ba.set (bit/32) word) = Function.update (bits ba) bit v := by
  funext b
  by_cases hw : b/32 = bit/32
  · have hb : b%32 < 32 := Nat.mod_lt b (by decide)
    rw [bits,hw,List.getD_eq_getElem _ _ (by rwa [List.length_set]),List.getElem_set_self,hword _ hb]
    by_cases hbit : b = bit
    · rw [hbit,if_pos rfl,Function.update_self]
    · rw [if_neg (by omega),Function.update_of_ne hbit,bits,hw,List.getD_eq_getElem _ _ h]
  · rw [Function.update_of_ne (fun hbit => hw (by rw [hbit])),bits,bits,List.getD_eq_getElem?_getD,
      List.getElem?_set_ne (Ne.symm hw),List.getD_eq_getElem?_getD]

theorem bitarraySet_eq {ba : Words} {bit : ℕ} (h : bit/32 < ba.length) : ∃ ba',
    bitarraySet ba bit = some ba' ∧ ba'.length = ba.length ∧
      bits ba' = Function.update (bits ba) bit true := by
  have hset : bitarraySet ba bit =
      some (ba.set (bit/32) (ba[bit/32] ||| 1#32 <<< (bit%32))) := by
    rw [bitarraySet,shift_eq,mask_eq,List.getElem?_eq_getElem h]
    rfl
  refine ⟨_,hset,List.length_set,bits_set h fun i hi => ?_⟩
  rw [BitVec.getLsbD_or,getLsbD_mask]
  by_cases hbit : i = bit%32 <;> simp [hbit]

theorem bitarrayClear_eq {ba : Words} {bit : ℕ} (h : bit/32 < ba.length) : ∃ ba',
    bitarrayClear ba bit = some ba' ∧ ba'.length = ba.length ∧
      bits ba' = Function.update (bits ba) bit false := by
  have hclear : bitarrayClear ba bit =
      some (ba.set (bit/32) (ba[bit/32] &&& ~~~(1#32 <<< (bit%32)))) := by
    rw [bitarrayClear,shift_eq,mask_eq,List.getElem?_eq_getElem h]
    rfl
  refine ⟨_,hclear,List.length_set,bits_set h fun i hi => ?_⟩
  rw [BitVec.getLsbD_and,BitVec.getLsbD_not,getLsbD_mask]
  by_cases hbit : i = bit%32 <;> simp [hbit,hi]

theorem bitarrayIsSet_eq {ba : Words} {bit : ℕ} (h : bit/32 < ba.length) : ∃ value,
    bitarrayIsSet ba bit = some value ∧ (value != 0#32) = bits ba bit := by
  have hisSet : bitarrayIsSet ba bit = some (ba[bit/32] &&& 1#32 <<< (bit%32)) := by
    rw [bitarrayIsSet,shift_eq,mask_eq,List.getElem?_eq_getElem h]
    rfl
  refine ⟨_,hisSet,?_⟩
  rw [bits_eq h]
  have hb : bit%32 < 32 := Nat.mod_lt bit (by decide)
  have hget : ∀ i, (ba[bit/32] &&& 1#32 <<< (bit%32)).getLsbD i =
      (ba[bit/32].getLsbD i && decide (i = bit%32)) := fun i => by
    rw [BitVec.getLsbD_and,getLsbD_mask]
  cases hv : ba[bit/32].getLsbD (bit%32) with
  | true =>
    refine bne_iff_ne.mpr fun hzero => ?_
    have := hget (bit%32)
    rw [hzero,hv] at this
    simp at this
  | false =>
    rw [bne_eq_false_iff_eq]
    apply BitVec.eq_of_getLsbD_eq
    intro i _
    rw [hget,BitVec.getLsbD_zero]
    by_cases hi : i = bit%32
    · rw [hi,hv,Bool.false_and]
    · simp [hi]

end Bits

section Blocks
variable (order : Fin 4 → Fin 4)

/-- The byte of a word that a bit belongs to. -/
def byteOf (b : ℕ) : Fin 4 := Fin.ofNat 4 (b%32/8)

theorem getLsbD_clearByte (word : BitVec 32) (k : Fin 4) {i : ℕ} (hi : i < 32) :
    (clearByte word k).getLsbD i = (word.getLsbD i && decide (i/8 ≠ k.val)) := by
  have hk := k.isLt
  rw [clearByte,BitVec.getLsbD_and,BitVec.getLsbD_not,BitVec.getLsbD_shiftLeft,
    BitVec.getLsbD_setWidth,BitVec.getLsbD_allOnes]
  congr 1
  rw [Bool.eq_iff_iff]
  simp only [hi,decide_true,Bool.true_and,Bool.not_eq_true',Bool.and_eq_false_iff,
    Bool.not_eq_false',decide_eq_true_eq,decide_eq_false_iff_not]
  omega

/-- Several bytes are cleared, one after the other. -/
theorem getLsbD_foldl_clearByte (p : Fin 4 → Prop) [DecidablePred p] (ks : List (Fin 4))
    (word : BitVec 32) {i : ℕ} (hi : i < 32) :
    (ks.foldl (fun word k => if p k then clearByte word k else word) word).getLsbD i = true ↔
      word.getLsbD i = true ∧ ∀ k ∈ ks, p k → i/8 ≠ k.val := by
  induction ks generalizing word with
  | nil => simp
  | cons k ks ih =>
    rw [List.foldl_cons,ih,List.forall_mem_cons,← and_assoc]
    refine and_congr_left fun _ => ?_
    by_cases hk : p k
    · rw [if_pos hk,getLsbD_clearByte _ _ hi]
      simp [hk]
    · simp [hk]

theorem memsetZero_eq (start : ℕ) {stop : ℕ} {ba : Words} (h : stop ≤ 4*ba.length) : ∃ ba',
    memsetZero order start stop ba = some ba' ∧ ba'.length = ba.length ∧ ∀ b,
      bits ba' b = (bits ba b && !decide (start ≤ address order (b/32) (byteOf b) ∧
        address order (b/32) (byteOf b) < stop)) := by
  refine ⟨_,if_pos h,List.length_mapIdx,fun b => ?_⟩
  by_cases hw : b/32 < ba.length
  · have hb : b%32 < 32 := Nat.mod_lt b (by decide)
    have hbyte : b%32/8 = (byteOf b).val := by
      simp [byteOf]
      omega
    rw [bits_eq hw,bits,List.getD_eq_getElem _ _ (by rwa [List.length_mapIdx]),
      List.getElem_mapIdx,Bool.eq_iff_iff,getLsbD_foldl_clearByte _ _ _ hb,Bool.and_eq_true]
    refine and_congr_right fun _ => ?_
    simp only [Bool.not_eq_true',decide_eq_false_iff_not,hbyte]
    refine ⟨fun hall hin => hall (byteOf b) ?_ hin rfl,fun hout k _ hk heq => hout ?_⟩
    · exact List.mem_finRange _
    · rwa [Fin.ext heq]
  · rw [bits_outside (by rw [List.length_mapIdx]; omega),bits_outside (by omega),Bool.false_and]

theorem wordsFor_eq {nBits : ℕ} (h : nBits+bitarrayMask < 2^32) :
    wordsFor nBits = (nBits+31)/32 := by
  rw [wordsFor,Nat.mod_eq_of_lt h,shift_eq]
  rfl

theorem bits_realloc {fresh : ℕ → BitVec 32} {ba : Words} {size : ℕ} (h : ba.length ≤ size) {b : ℕ}
    (hb : b/32 < ba.length) : bits (realloc fresh ba size) b = bits ba b := by
  have hlen : b/32 < (realloc fresh ba size).length := by
    rw [realloc,List.length_map,List.length_range]
    omega
  rw [bits_eq hlen,bits_eq hb]
  simp [realloc,List.getElem?_eq_getElem hb]

/-- A new array has the bits that were in memory, but for those in the bytes that were cleared. -/
theorem bitarrayInitZero_eq (fresh : ℕ → BitVec 32) (nBits : ℕ) : ∃ ba,
    bitarrayInitZero order fresh nBits = some ba ∧ ba.length = wordsFor nBits ∧ ∀ b,
      bits ba b = (bits (malloc fresh (wordsFor nBits)) b &&
        decide (wordsFor nBits ≤ address order (b/32) (byteOf b))) := by
  have hlen : (malloc fresh (wordsFor nBits)).length = wordsFor nBits := by simp [malloc]
  obtain ⟨ba,hset,hlen',hbits⟩ := memsetZero_eq order 0
    (show wordsFor nBits ≤ 4*(malloc fresh (wordsFor nBits)).length by omega)
  refine ⟨ba,hset,by rw [hlen',hlen],fun b => ?_⟩
  rw [hbits]
  congr 1
  rw [← decide_not,decide_eq_decide]
  omega

/-- An array that grows keeps its bits, and has no others. -/
theorem bitarrayExpand_eq (fresh : ℕ → BitVec 32) {ba : Words} {nBits nBitsNew : ℕ}
    (h : nBits+bitarrayMask < 2^32) (hnew : nBitsNew+bitarrayMask < 2^32)
    (hlen : ba.length = wordsFor nBits) : ∃ ba',
      bitarrayExpand order fresh ba nBits nBitsNew = some ba' ∧
        ba'.length = wordsFor (max nBits nBitsNew) ∧ bits ba' = bits ba := by
  have hmax : max nBits nBitsNew+bitarrayMask < 2^32 := by omega
  rw [bitarrayExpand,wordsFor_eq h,wordsFor_eq hnew,wordsFor_eq hmax]
  rw [wordsFor_eq h] at hlen
  by_cases hle : (nBitsNew+31)/32 ≤ (nBits+31)/32
  · rw [if_pos hle]
    exact ⟨ba,rfl,by omega,rfl⟩
  rw [if_neg hle]
  have hsize : (realloc fresh ba ((nBitsNew+31)/32)).length = (nBitsNew+31)/32 := by
    simp [realloc]
  obtain ⟨ba',hset,hlen',hbits⟩ := memsetZero_eq order (4*((nBits+31)/32))
    (show 4*((nBits+31)/32)+4*((nBitsNew+31)/32-(nBits+31)/32) ≤
      4*(realloc fresh ba ((nBitsNew+31)/32)).length by omega)
  refine ⟨ba',hset,by omega,?_⟩
  funext b
  have hbyte := (order (byteOf b)).isLt
  rw [hbits,address]
  rcases Nat.lt_or_ge (b/32) ba.length with hold | hold
  · rw [bits_realloc (by omega) hold,decide_eq_false (by omega),Bool.not_false,Bool.and_true]
  rw [bits_outside hold]
  rcases Nat.lt_or_ge (b/32) ((nBitsNew+31)/32) with hadded | hout
  · rw [decide_eq_true (by omega),Bool.not_true,Bool.and_false]
  · rw [bits_outside (by omega),Bool.false_and]

end Blocks

section Runs
variable {order : Fin 4 → Fin 4}

/-- An array answers as the map of its bits. -/
theorem run_answers (order : Fin 4 → Fin 4) (memory : ℕ → ℕ → BitVec 32) {nBits : ℕ} {ba : Words} {ops : List Op}
    (hops : Admissible nBits ops) (h : nBits+bitarrayMask < 2^32)
    (hnew : ∀ n, .expand n ∈ ops → n+bitarrayMask < 2^32) (hlen : ba.length = wordsFor nBits) :
    ∃ values, run order memory nBits ba ops = some values ∧
      values.map (· != 0#32) = answers (bits ba) ops := by
  induction ops generalizing memory nBits ba with
  | nil => exact ⟨[],rfl,rfl⟩
  | cons op ops ih =>
    have hinside : ∀ bit < nBits, bit/32 < ba.length := fun bit hbit => by
      rw [hlen,wordsFor_eq h]
      omega
    have hnew' : ∀ n, .expand n ∈ ops → n+bitarrayMask < 2^32 :=
      fun n hn => hnew n (List.mem_cons_of_mem op hn)
    cases op with
    | set bit =>
      obtain ⟨hbit,-,hops⟩ := hops
      obtain ⟨ba',hset,hlen',hbits⟩ := bitarraySet_eq (hinside bit hbit)
      rw [run,answers,hset,← hbits]
      exact ih memory hops h hnew' (hlen'.trans hlen)
    | clear bit =>
      obtain ⟨hbit,-,hops⟩ := hops
      obtain ⟨ba',hclear,hlen',hbits⟩ := bitarrayClear_eq (hinside bit hbit)
      rw [run,answers,hclear,← hbits]
      exact ih memory hops h hnew' (hlen'.trans hlen)
    | isSet bit =>
      obtain ⟨hbit,-,hops⟩ := hops
      obtain ⟨value,hvalue,hanswer⟩ := bitarrayIsSet_eq (hinside bit hbit)
      obtain ⟨values,hrun,hvalues⟩ := ih memory hops h hnew' hlen
      refine ⟨value :: values,?_,?_⟩
      · rw [run,hvalue,Option.bind_eq_bind,Option.bind_some,hrun]
        rfl
      · rw [List.map_cons,hanswer,hvalues,answers]
    | expand n =>
      obtain ⟨-,hops⟩ := hops
      have hn := hnew n List.mem_cons_self
      obtain ⟨ba',hexpand,hlen',hbits⟩ := bitarrayExpand_eq order (memory 0) h hn hlen
      rw [run,answers,hexpand,← hbits]
      exact ih _ hops (by omega) hnew' hlen'

/-- A run of an array beside a map that is false at first, whatever is in memory. -/
def ActsAsMap (order : Fin 4 → Fin 4) (nBits : ℕ) (ops : List Op) : Prop :=
  ∀ memory : ℕ → ℕ → BitVec 32, ∃ ba values,
    bitarrayInitZero order (memory 0) nBits = some ba ∧
      run order (fun k => memory (k+1)) nBits ba ops = some values ∧
        values.map (· != 0#32) = answers (fun _ => false) ops

/-- What the first `memset` clears, and what is not in the first block. -/
def Zeroed (order : Fin 4 → Fin 4) (nBits b : ℕ) : Prop :=
  address order (b/32) (byteOf b) < wordsFor nBits ∨ wordsFor nBits ≤ b/32

theorem bits_malloc {fresh : ℕ → BitVec 32} {size b : ℕ} (h : b/32 < size) :
    bits (malloc fresh size) b = (fresh (b/32)).getLsbD (b%32) := by
  have hlen : b/32 < (malloc fresh size).length := by simpa [malloc] using h
  rw [bits_eq hlen]
  simp [malloc]

/-- Where sizes can be rounded up, an array acts as a map exactly if each bit that is read before
it is set or cleared has been zeroed. -/
theorem actsAsMap_iff {nBits : ℕ} {ops : List Op} (hops : Admissible nBits ops)
    (h : nBits+bitarrayMask < 2^32) (hnew : ∀ n, .expand n ∈ ops → n+bitarrayMask < 2^32) :
    ActsAsMap order nBits ops ↔ ∀ b ∈ firstReads [] ops, Zeroed order nBits b := by
  constructor
  · intro hacts b hb
    -- memory that is full of ones
    obtain ⟨ba,values,hinit,hrun,hvalues⟩ := hacts fun _ _ => BitVec.allOnes 32
    obtain ⟨ba',hinit',hlen,hbits⟩ := bitarrayInitZero_eq order
      (fun _ => BitVec.allOnes 32) nBits
    obtain rfl : ba' = ba := Option.some.inj (hinit'.symm.trans hinit)
    obtain ⟨values',hrun',hvalues'⟩ := run_answers order
      (fun _ _ => BitVec.allOnes 32) hops h hnew hlen
    obtain rfl : values' = values := Option.some.inj (hrun'.symm.trans hrun)
    have hfalse := (answers_eq_iff fun b hb => absurd hb List.not_mem_nil).mp
      (hvalues'.symm.trans hvalues) b hb
    rw [Zeroed]
    by_contra hnot
    rw [not_or,Nat.not_lt,Nat.not_le] at hnot
    have hb32 : b%32 < 32 := Nat.mod_lt b (by decide)
    rw [hbits,bits_malloc hnot.2,BitVec.getLsbD_allOnes,decide_eq_true hb32,
      decide_eq_true hnot.1] at hfalse
    cases hfalse
  · intro hzero memory
    obtain ⟨ba,hinit,hlen,hbits⟩ := bitarrayInitZero_eq order (memory 0) nBits
    obtain ⟨values,hrun,hvalues⟩ := run_answers order
      (fun k => memory (k+1)) hops h hnew hlen
    refine ⟨ba,values,hinit,hrun,hvalues.trans ?_⟩
    refine (answers_eq_iff fun b hb => absurd hb List.not_mem_nil).mpr
      fun b hb => ?_
    rcases hzero b hb with hzero | hout
    · rw [hbits,decide_eq_false (Nat.not_le.mpr hzero),Bool.and_false]
    · exact bits_outside (hlen.trans_le hout)

/-- An array for five bytes of which two are cleared. -/
theorem actsAsMap_forty : Admissible 40 [.isSet 16] ∧ ¬ ActsAsMap id 40 [.isSet 16] := by
  refine ⟨by simp [Admissible],fun h => ?_⟩
  obtain ⟨ba,values,hinit,hrun,hvalues⟩ := h fun _ _ => BitVec.allOnes 32
  have hbad : (bitarrayInitZero id (fun _ => BitVec.allOnes 32) 40 >>= fun ba =>
      run id (fun _ _ => BitVec.allOnes 32) 40 ba [.isSet 16]) = some [0x10000#32] := by decide
  rw [hinit] at hbad
  rw [show run _ _ _ _ _ = _ from hbad] at hrun
  obtain rfl := Option.some.inj hrun
  revert hvalues
  decide

theorem actsAsMap_written : ActsAsMap id 40
    [.isSet 15,.set 16,.isSet 16,.expand 100,.clear 39,.isSet 39,.isSet 99] := by
  refine (actsAsMap_iff ?_ (by decide) fun n hn => ?_).mpr fun b hb => ?_
  · simp [Admissible]
  · simp at hn
    rw [hn]
    decide
  · simp [firstReads] at hb
    rcases hb with rfl | rfl
    · exact .inl (by decide)
    · exact .inr (by decide)

/-- Where the size wraps, there is no word at all. -/
theorem bitarrayInitZero_wraps {fresh : ℕ → BitVec 32} {nBits : ℕ} (h : nBits < 2^32)
    (hwrap : 2^32 ≤ nBits+bitarrayMask) : bitarrayInitZero order fresh nBits = some [] := by
  have hsize : wordsFor nBits = 0 := by
    have hmask : bitarrayMask = 31 := rfl
    rw [wordsFor,shift_eq]
    omega
  rw [bitarrayInitZero,hsize]
  rfl

end Runs

end Bitarray

end WpaCliWrapper
