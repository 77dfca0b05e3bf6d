import WpaCliWrapper.CText.Bytes

/-! The text helpers of `src/utils/common.c`: hexadecimal digits, the escapes of `printf_encode`
and `printf_decode`, and the value syntax of `wpa_config_parse_string`. -/
namespace WpaCliWrapper
open CText

def hex2num (c : UInt8) : Option UInt8 :=
  if 48 ≤ c ∧ c ≤ 57 then some (c-48)
  else if 97 ≤ c ∧ c ≤ 102 then some (c-97+10)
  else if 65 ≤ c ∧ c ≤ 70 then some (c-65+10)
  else none

/-- The NUL that ends a text is no digit. -/
def hex2byte : Bytes → Option UInt8
  | a :: b :: _ => do return 16*(← hex2num a)+(← hex2num b)
  | _ => none

/-- `hexstr2bin` for `len` bytes. -/
def hexstr2bin : ℕ → Bytes → Option Bytes
  | 0, _ => some []
  | len+1, hex => do return (← hex2byte hex) :: (← hexstr2bin len (hex.drop 2))

/-- The digit that `%02x` writes. -/
def hexDigit (d : UInt8) : UInt8 := if d < 10 then 48+d else 87+d

/-- How `printf_encode` writes one byte. -/
def encodeByte (c : UInt8) : Bytes :=
  if c = 34 then [92,34]
  else if c = 92 then [92,92]
  else if c = 27 then [92,101]
  else if c = 10 then [92,110]
  else if c = 13 then [92,114]
  else if c = 9 then [92,116]
  else if 32 ≤ c ∧ c ≤ 126 then [c]
  else [92,120,hexDigit (c/16),hexDigit (c%16)]

/-- The loop of `printf_encode`: it ends when fewer than five bytes are left. -/
def encodeBytes (maxlen : ℕ) : Bytes → Bytes → Bytes
  | txt, [] => txt
  | txt, c :: data =>
    if maxlen ≤ txt.length+4 then txt else encodeBytes maxlen (txt ++ encodeByte c) data

def printfEncode (maxlen : ℕ) (data : Bytes) : Bytes := encodeBytes maxlen [] data

def isOctal (c : UInt8) : Bool := 48 ≤ c && c ≤ 55

/-- One to three octal digits; the value is cut to a byte. -/
def decodeOctal : Bytes → Option UInt8 × Bytes
  | a :: b :: c :: str =>
    if !isOctal a then (none,a :: b :: c :: str)
    else if !isOctal b then (some (a-48),b :: c :: str)
    else if !isOctal c then (some (8*(a-48)+(b-48)),c :: str)
    else (some (8*(8*(a-48)+(b-48))+(c-48)),str)
  | [a,b] =>
    if !isOctal a then (none,[a,b])
    else if !isOctal b then (some (a-48),[b])
    else (some (8*(a-48)+(b-48)),[])
  | [a] => if isOctal a then (some (a-48),[]) else (none,[a])
  | [] => (none,[])

/-- Two hexadecimal digits, or one. -/
def decodeHex (str : Bytes) : Option UInt8 × Bytes :=
  match hex2byte str with
  | some val => (some val,str.drop 2)
  | none =>
    match str with
    | [] => (none,[])
    | c :: rest => (hex2num c).elim (none,c :: rest) fun val => (some val,rest)

/-- What follows a backslash; an unknown escape loses its backslash. -/
def decodeEscape : Bytes → Option UInt8 × Bytes
  | 92 :: str => (some 92,str)
  | 34 :: str => (some 34,str)
  | 110 :: str => (some 10,str)
  | 114 :: str => (some 13,str)
  | 116 :: str => (some 9,str)
  | 101 :: str => (some 27,str)
  | 120 :: str => decodeHex str
  | str => decodeOctal str

/-- The loop of `printf_decode` with room for some more bytes; every round uses up at least one
byte of the text. -/
def decodeBytes : ℕ → ℕ → Bytes → Bytes
  | 0, _, _ => []
  | _, _, [] => []
  | _, 0, _ => []
  | fuel+1, room+1, c :: str =>
    match if c = 92 then decodeEscape str else (some c,str) with
    | (some val,rest) => val :: decodeBytes fuel room rest
    | (none,rest) => decodeBytes fuel (room+1) rest

def printfDecode (maxlen : ℕ) (str : Bytes) : Bytes := decodeBytes str.length (maxlen-1) str

example : printfDecode 64 (ascii "a\\x5cb\\q\\101\\n") = ascii "a\\bqA\n" := by decide

/-- A value that ends at its last double quote. -/
def quotedValue (value : Bytes) : Option Bytes :=
  if value.getLast? = some 34 then some value.dropLast else none

def wpaConfigParseString : Bytes → Option Bytes
  | 34 :: value => quotedValue value
  | 80 :: 34 :: value => do
    let tstr ← quotedValue value
    return printfDecode (tstr.length+1) tstr
  | value => if value.length % 2 = 1 then none else hexstr2bin (value.length/2) value

example : wpaConfigParseString (ascii "\"cafe\"") = some (ascii "cafe") := by decide
example : wpaConfigParseString (ascii "cafe") = some [0xca,0xfe] := by decide

theorem decodeBytes_length (fuel room : ℕ) (str : Bytes) :
    (decodeBytes fuel room str).length ≤ room := by
  induction fuel generalizing room str with
  | zero => simp [decodeBytes]
  | succ fuel ih =>
    cases str with
    | nil => simp [decodeBytes]
    | cons c str =>
      cases room with
      | zero => simp [decodeBytes]
      | succ room =>
        rw [decodeBytes]
        split
        · rename_i val rest _
          exact Nat.succ_le_succ (ih room rest)
        · rename_i rest _
          exact ih (room+1) rest

theorem hexstr2bin_length {len : ℕ} {hex data : Bytes} (h : hexstr2bin len hex = some data) :
    data.length = len := by
  induction len generalizing hex data with
  | zero =>
    cases h
    rfl
  | succ len ih =>
    rw [hexstr2bin] at h
    obtain ⟨b,-,h⟩ := Option.bind_eq_some_iff.mp h
    obtain ⟨rest,hrest,h⟩ := Option.bind_eq_some_iff.mp h
    cases h
    rw [List.length_cons,ih hrest]

theorem quotedValue_length {value data : Bytes} (h : quotedValue value = some data) :
    data.length+1 = value.length := by
  unfold quotedValue at h
  split at h
  · rename_i hlast
    obtain ⟨init,rfl⟩ := List.getLast?_eq_some_iff.mp hlast
    cases h
    simp
  · cases h

/-- Every way to write a value is longer than the value. -/
theorem parseString_length {value data : Bytes} (hne : value ≠ [])
    (h : wpaConfigParseString value = some data) : data.length < value.length := by
  unfold wpaConfigParseString at h
  split at h
  · have hq := quotedValue_length h
    rw [List.length_cons]
    omega
  · obtain ⟨tstr,ht,h⟩ := Option.bind_eq_some_iff.mp h
    cases h
    have hq := quotedValue_length ht
    have hd := decodeBytes_length tstr.length tstr.length tstr
    rw [List.length_cons,List.length_cons]
    change (decodeBytes tstr.length (tstr.length+1-1) tstr).length < _
    rw [Nat.add_sub_cancel]
    omega
  · split at h
    · cases h
    · have hl := hexstr2bin_length h
      have hpos := List.length_pos_iff.mpr hne
      omega

theorem encodeByte_length (c : UInt8) : (encodeByte c).length ≤ 4 := by
  unfold encodeByte
  repeat' split
  all_goals simp

/-- With four bytes and one more for each byte of the data nothing is left out. -/
theorem encodeBytes_eq {maxlen : ℕ} (data txt : Bytes) (h : txt.length+4*data.length < maxlen) :
    encodeBytes maxlen txt data = txt ++ data.flatMap encodeByte := by
  induction data generalizing txt with
  | nil => simp [encodeBytes]
  | cons c data ih =>
    have hc := encodeByte_length c
    simp only [List.length_cons] at h
    rw [encodeBytes,if_neg (by omega),ih _ (by rw [List.length_append]; omega),List.flatMap_cons,
      List.append_assoc]

section RoundTrip

theorem hex2num_hexDigit {d : UInt8} (h : d < 16) : hex2num (hexDigit d) = some d := by
  have hall : ∀ n < 16, hex2num (hexDigit (UInt8.ofNat n)) = some (UInt8.ofNat n) := by decide
  have hd := hall d.toNat h
  rwa [UInt8.ofNat_toNat] at hd

/-- The two digits of a byte. -/
theorem hex_digits (c : UInt8) : c/16 < 16 ∧ c%16 < 16 ∧ 16*(c/16)+c%16 = c := by
  have hc := c.toNat_lt
  have h16 : (16 : UInt8).toNat = 16 := rfl
  refine ⟨?_,?_,?_⟩
  · rw [UInt8.lt_iff_toNat_lt,UInt8.toNat_div,h16]
    omega
  · rw [UInt8.lt_iff_toNat_lt,UInt8.toNat_mod,h16]
    omega
  · apply UInt8.toNat_inj.mp
    rw [UInt8.toNat_add,UInt8.toNat_mul,UInt8.toNat_div,UInt8.toNat_mod,h16]
    omega

theorem decodeEscape_hex (c : UInt8) (rest : Bytes) :
    decodeEscape (120 :: hexDigit (c/16) :: hexDigit (c%16) :: rest) = (some c,rest) := by
  obtain ⟨h1,h2,h3⟩ := hex_digits c
  rw [decodeEscape,decodeHex,hex2byte,hex2num_hexDigit h1,hex2num_hexDigit h2]
  simp [h3]

/-- What is written for a byte: a backslash and a letter, the byte itself, or its two digits. -/
theorem encodeByte_cases (c : UInt8) :
    (∃ e, encodeByte c = [92,e] ∧ 32 < e ∧ ∀ rest, decodeEscape (e :: rest) = (some c,rest)) ∨
      (encodeByte c = [c] ∧ c ≠ 92 ∧ 32 ≤ c) ∨
        encodeByte c = [92,120,hexDigit (c/16),hexDigit (c%16)] := by
  unfold encodeByte
  split_ifs with hquote hbackslash hescape hnewline hreturn htab hprintable
  · exact .inl ⟨34,rfl,by decide,fun rest => by rw [hquote]; rfl⟩
  · exact .inl ⟨92,rfl,by decide,fun rest => by rw [hbackslash]; rfl⟩
  · exact .inl ⟨101,rfl,by decide,fun rest => by rw [hescape]; rfl⟩
  · exact .inl ⟨110,rfl,by decide,fun rest => by rw [hnewline]; rfl⟩
  · exact .inl ⟨114,rfl,by decide,fun rest => by rw [hreturn]; rfl⟩
  · exact .inl ⟨116,rfl,by decide,fun rest => by rw [htab]; rfl⟩
  · exact .inr (.inl ⟨rfl,hbackslash,hprintable.1⟩)
  · exact .inr (.inr rfl)

theorem decodeBytes_escape {str rest : Bytes} {c : UInt8} (h : decodeEscape str = (some c,rest))
    (fuel room : ℕ) :
    decodeBytes (fuel+1) (room+1) (92 :: str) = c :: decodeBytes fuel room rest := by
  change (match decodeEscape str with
    | (some val,rest) => val :: decodeBytes fuel room rest
    | (none,rest) => decodeBytes fuel (room+1) rest) = _
  rw [h]

/-- One byte is read back from what was written for it. -/
theorem decodeBytes_encodeByte (c : UInt8) (fuel room : ℕ) (rest : Bytes) :
    decodeBytes (fuel+1) (room+1) (encodeByte c ++ rest) = c :: decodeBytes fuel room rest := by
  rcases encodeByte_cases c with ⟨e,heq,-,hescape⟩ | ⟨heq,hbackslash,-⟩ | heq
  · rw [heq]
    exact decodeBytes_escape (hescape rest) fuel room
  · rw [heq,List.singleton_append,decodeBytes,if_neg hbackslash]
  · rw [heq]
    exact decodeBytes_escape (decodeEscape_hex c rest) fuel room

theorem decodeBytes_flatMap {data : Bytes} {fuel room : ℕ} (hf : data.length ≤ fuel)
    (hr : data.length ≤ room) : decodeBytes fuel room (data.flatMap encodeByte) = data := by
  induction data generalizing fuel room with
  | nil => cases fuel <;> cases room <;> rfl
  | cons c data ih =>
    obtain ⟨fuel,rfl⟩ : ∃ k, fuel = k+1 := ⟨fuel-1,by simp at hf; omega⟩
    obtain ⟨room,rfl⟩ : ∃ k, room = k+1 := ⟨room-1,by simp at hr; omega⟩
    rw [List.flatMap_cons,decodeBytes_encodeByte,ih (Nat.le_of_succ_le_succ hf)
      (Nat.le_of_succ_le_succ hr)]

theorem encodeByte_ne_nil (c : UInt8) : encodeByte c ≠ [] := by
  rcases encodeByte_cases c with ⟨e,heq,-⟩ | ⟨heq,-⟩ | heq
  all_goals
    rw [heq]
    exact List.cons_ne_nil _ _

theorem length_le_flatMap_encodeByte (data : Bytes) :
    data.length ≤ (data.flatMap encodeByte).length := by
  induction data with
  | nil => exact Nat.le_refl 0
  | cons c data ih =>
    have hpos := List.length_pos_iff.mpr (encodeByte_ne_nil c)
    rw [List.flatMap_cons,List.length_append,List.length_cons]
    omega

/-- `printf_decode` undoes `printf_encode`, if there is room for both texts. -/
theorem printfDecode_printfEncode {data : Bytes} {maxlen size : ℕ} (hsize : 4*data.length < size)
    (hmax : data.length < maxlen) : printfDecode maxlen (printfEncode size data) = data := by
  have heq : printfEncode size data = data.flatMap encodeByte := by
    rw [printfEncode,encodeBytes_eq _ _ (by simpa using hsize),List.nil_append]
  rw [heq]
  exact decodeBytes_flatMap (length_le_flatMap_encodeByte data) (by omega)

end RoundTrip

end WpaCliWrapper
