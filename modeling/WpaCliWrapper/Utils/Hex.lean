import WpaCliWrapper.Utils.Printf

/-! Hexadecimal texts: what `%02x` writes for a plain `char`, the loop that writes a value into an
array, what `hexstr2bin` reads back, and the texts of hardware addresses. -/
namespace WpaCliWrapper
open CText

/-- A plain `char`, which is signed, as the `unsigned int` that `%x` prints. -/
def promoted (c : UInt8) : ℕ := if c < 128 then c.toNat else 4294967040+c.toNat

/-- The digits of `%x`, for at most some digits. -/
def hexDigits : ℕ → ℕ → Bytes
  | 0, _ => []
  | digits+1, n =>
    (if n < 16 then [] else hexDigits digits (n/16)) ++ [hexDigit (UInt8.ofNat (n%16))]

/-- `%02x` for an `unsigned int`. -/
def formatHex (n : ℕ) : Bytes :=
  List.replicate (2-(hexDigits 8 n).length) 48 ++ hexDigits 8 n

example : formatHex (promoted 0x0a) = ascii "0a" := by decide
example : formatHex (promoted 0xc3) = ascii "ffffffc3" := by decide

/-- `os_snprintf` into `size` bytes at a position of an array, unless it leaves the array. -/
def snprintfAt (cells : Bytes) (pos size : ℕ) (text : Bytes) : Option Bytes :=
  let written := text.take (size-1) ++ [0]
  if pos+written.length ≤ cells.length then
    some (cells.take pos ++ written ++ cells.drop (pos+written.length))
  else none

/-- The loop that writes the bytes of a value from number `i` on, with some rounds left. -/
def hexLoop : ℕ → ℕ → Bytes → Bytes → Option Bytes
  | 0, _, _, buf => some buf
  | _+1, _, [], buf => some buf
  | rounds+1, i, c :: value, buf =>
    if c = 0 then some buf
    else do hexLoop rounds (i+1) value (← snprintfAt buf (i*2) 3 (formatHex (promoted c)))

/-- The text that a value leaves in an array of `2*max+1` bytes on the stack. -/
def hexField (max : ℕ) (stack : ℕ → UInt8) (value : Option Bytes) : Option Bytes := do
  let buf := ((List.range (2*max+1)).map stack).set 0 0
  return cstr (← value.elim (some buf) fun value => hexLoop max 0 value buf)

/-- A whole text of hexadecimal digits as bytes. -/
def unhex (hex : Bytes) : Option Bytes :=
  if hex.length % 2 = 1 then none else hexstr2bin (hex.length/2) hex

/-- `hwaddr_parse` with some bytes left: the address, and the text behind it. -/
def hwaddrParse : ℕ → Bytes → Option (Bytes × Bytes)
  | 0, txt => some ([],txt)
  | 1, txt => do return ([← hex2byte txt],txt.drop 2)
  | bytes+2, txt => do
    let a ← hex2byte txt
    match txt.drop 2 with
    | 58 :: txt =>
      let (addr,rest) ← hwaddrParse (bytes+1) txt
      return (a :: addr,rest)
    | _ => none

def ethAlen : ℕ := 6

def hwaddrAton (txt : Bytes) : Option Bytes := (hwaddrParse ethAlen txt).map Prod.fst

example : hwaddrAton (ascii "02:0A:ff:00:10:01 x") = some [2,10,255,0,16,1] := by decide
example : hwaddrAton (ascii "02:0A:ff:00:10") = none := by decide

section Digits

def byteDigits (c : UInt8) : Bytes := [hexDigit (c/16),hexDigit (c%16)]

/-- The byte that arrives where a plain `char` is sent. -/
def arriving (c : UInt8) : UInt8 := if c < 128 then c else 255

/-- Two of the digits fit the window: those of the byte, or two of the sign. -/
theorem formatHex_take (c : UInt8) : (formatHex (promoted c)).take 2 = byteDigits (arriving c) := by
  have hall : ∀ n < 256, (formatHex (promoted (UInt8.ofNat n))).take 2 =
      byteDigits (arriving (UInt8.ofNat n)) := by decide +kernel
  have hc := hall c.toNat c.toNat_lt
  rwa [UInt8.ofNat_toNat] at hc

theorem hex2byte_byteDigits (c : UInt8) (rest : Bytes) : hex2byte (byteDigits c ++ rest) = some c := by
  obtain ⟨h1,h2,h3⟩ := hex_digits c
  change (do return 16*(← hex2num (hexDigit (c/16)))+(← hex2num (hexDigit (c%16)))) = some c
  rw [hex2num_hexDigit h1,hex2num_hexDigit h2]
  exact congrArg some h3

theorem hexstr2bin_byteDigits (value rest : Bytes) :
    hexstr2bin value.length (value.flatMap byteDigits ++ rest) = some value := by
  induction value with
  | nil => rfl
  | cons c value ih =>
    rw [List.length_cons,List.flatMap_cons,List.append_assoc,hexstr2bin,hex2byte_byteDigits]
    change (do return c :: (← hexstr2bin value.length (value.flatMap byteDigits ++ rest))) = _
    rw [ih]
    rfl

theorem length_flatMap_byteDigits (value : Bytes) :
    (value.flatMap byteDigits).length = 2*value.length := by
  induction value with
  | nil => rfl
  | cons c value ih =>
    rw [List.flatMap_cons,List.length_append,ih,List.length_cons]
    change 2+_ = _
    omega

theorem unhex_byteDigits (value : Bytes) : unhex (value.flatMap byteDigits) = some value := by
  have hlen := length_flatMap_byteDigits value
  have hread := hexstr2bin_byteDigits value []
  rw [List.append_nil] at hread
  rw [unhex,if_neg (by omega),hlen,Nat.mul_div_cancel_left _ (by omega)]
  exact hread

/-- Every character that `hexstr2bin` reads is a digit. -/
theorem hexstr2bin_digits {len : ℕ} {hex value : Bytes} (h : hexstr2bin len hex = some value) :
    ∀ c ∈ hex.take (2*len), hex2num c ≠ none := by
  induction len generalizing hex value with
  | zero => simp
  | succ len ih =>
    rw [hexstr2bin] at h
    obtain ⟨b,hb,h⟩ := Option.bind_eq_some_iff.mp h
    obtain ⟨rest,hrest,-⟩ := Option.bind_eq_some_iff.mp h
    rcases hex with _ | ⟨a,_ | ⟨b',hex⟩⟩
    · simp
    · cases hb
    · obtain ⟨x,hx,hb⟩ := Option.bind_eq_some_iff.mp hb
      obtain ⟨y,hy,-⟩ := Option.bind_eq_some_iff.mp hb
      intro c hc
      have hc : c ∈ a :: b' :: hex.take (2*len) := hc
      rcases List.mem_cons.mp hc with rfl | hc
      · rw [hx]
        exact Option.some_ne_none x
      rcases List.mem_cons.mp hc with rfl | hc
      · rw [hy]
        exact Option.some_ne_none y
      · exact ih hrest c hc

theorem unhex_digits {hex value : Bytes} (h : unhex hex = some value) :
    ∀ c ∈ hex, hex2num c ≠ none := by
  unfold unhex at h
  split at h
  · cases h
  · have hdigits := hexstr2bin_digits h
    rwa [List.take_of_length_le (by omega)] at hdigits

/-- An address is read back from its text, whatever follows. -/
theorem hwaddrParse_byteDigits {addr : Bytes} (hne : addr ≠ []) (rest : Bytes) :
    hwaddrParse addr.length ([58].intercalate (addr.map byteDigits) ++ rest) = some (addr,rest) := by
  induction addr with
  | nil => exact absurd rfl hne
  | cons c addr ih =>
    cases addr with
    | nil =>
      have hread := hex2byte_byteDigits c rest
      change (do return ([← hex2byte (byteDigits c ++ rest)],rest)) = some ([c],rest)
      rw [hread]
      rfl
    | cons d addr =>
      rw [List.map_cons,List.map_cons,List.intercalate_cons_cons,List.append_assoc,
        List.append_assoc]
      have htail := ih (List.cons_ne_nil d addr)
      rw [List.map_cons] at htail
      generalize [58].intercalate (byteDigits d :: addr.map byteDigits) ++ rest = text at htail ⊢
      change (do
        let a ← hex2byte (byteDigits c ++ ([58] ++ text))
        let r ← hwaddrParse (d :: addr).length text
        return (a :: r.1,r.2)) = _
      rw [hex2byte_byteDigits,htail]
      rfl

end Digits

section Loop

/-- Two characters and a terminator, written over the terminator of the text so far. -/
theorem snprintfAt_window {done rest text digits : Bytes} (htext : text.take 2 = digits)
    (hlen : digits.length = 2) (hroom : 2 ≤ rest.length) :
    snprintfAt (done ++ 0 :: rest) done.length 3 text =
      some (done ++ digits ++ 0 :: rest.drop 2) := by
  have hwritten : (digits ++ [0]).length = 3 := by rw [List.length_append,hlen]; rfl
  rw [snprintfAt]
  simp only [Nat.add_one_sub_one,htext,hwritten]
  rw [if_pos (by rw [List.length_append,List.length_cons]; omega),List.take_left,List.drop_append]
  simp [List.drop_of_length_le]

/-- The windows overlap in the byte that closes the text so far. -/
theorem hexLoop_eq (rounds : ℕ) {i : ℕ} {done rest value : Bytes} (hdone : done.length = i*2)
    (hroom : 2*rounds ≤ rest.length) (hvalue : 0 ∉ value) :
    ∃ rest', hexLoop rounds i value (done ++ 0 :: rest) =
      some (done ++ ((value.take rounds).map arriving).flatMap byteDigits ++ 0 :: rest') := by
  induction rounds generalizing i done rest value with
  | zero => exact ⟨rest,by simp [hexLoop]⟩
  | succ rounds ih =>
    cases value with
    | nil => exact ⟨rest,by simp [hexLoop]⟩
    | cons c value =>
      rw [List.mem_cons,not_or] at hvalue
      have hdone' : (done ++ byteDigits (arriving c)).length = (i+1)*2 := by
        rw [List.length_append,hdone,Nat.succ_mul]
        rfl
      have hroom' : 2*rounds ≤ (rest.drop 2).length := by
        rw [List.length_drop]
        omega
      obtain ⟨rest',hloop⟩ := ih hdone' hroom' hvalue.2
      refine ⟨rest',?_⟩
      rw [hexLoop,if_neg (Ne.symm hvalue.1),← hdone,snprintfAt_window (formatHex_take c) rfl (by omega)]
      change hexLoop rounds (i+1) value _ = _
      rw [hloop,List.take_succ_cons,List.map_cons,List.flatMap_cons,List.append_assoc done]

theorem byteDigits_noNul (value : Bytes) : 0 ∉ value.flatMap byteDigits := by
  intro h
  have hdigit := unhex_digits (unhex_byteDigits value) 0 h
  exact hdigit rfl

/-- The text holds the digits of the first `max` bytes as they arrive, whatever the stack held. -/
theorem hexField_eq (max : ℕ) (stack : ℕ → UInt8) {value : Option Bytes}
    (hvalue : 0 ∉ value.getD []) : hexField max stack value =
      some ((((value.getD []).take max).map arriving).flatMap byteDigits) := by
  have hbuf : ((List.range (2*max+1)).map stack).set 0 0 =
      [] ++ 0 :: ((List.range (2*max+1)).map stack).tail := by
    cases hcells : (List.range (2*max+1)).map stack with
    | nil => simp at hcells
    | cons x rest => rfl
  have htail : 2*max ≤ ((List.range (2*max+1)).map stack).tail.length := by simp
  rw [hexField,hbuf]
  cases value with
  | none => simp [cstr]
  | some value =>
    rw [Option.getD_some] at hvalue ⊢
    have hdone : ([] : Bytes).length = 0*2 := rfl
    obtain ⟨rest',hloop⟩ := hexLoop_eq max hdone htail hvalue
    change (do return cstr (← hexLoop max 0 value ([] ++ 0 :: _))) = _
    rw [hloop,List.nil_append]
    change some (cstr _) = _
    rw [cstr_append_nul,cstr_eq_self (byteDigits_noNul _)]

end Loop

end WpaCliWrapper
