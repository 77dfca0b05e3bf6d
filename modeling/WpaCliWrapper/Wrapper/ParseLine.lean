import WpaCliWrapper.CText.Cells
import WpaCliWrapper.Wrapper.Execute

/-! `parse_line` on its arrays: the copy of the command in `tmp_cmd`, the entries of `argv` that
point into it, and every store that the tokenizer makes. -/
namespace WpaCliWrapper
open CText

variable {D : Daemon}

/-- The stores of the tokenizer: of `strcpy`, of the NUL behind a word and of a pointer. -/
inductive Store
  | tmpCmd (i : ℕ)
  | line (i : ℕ)
  | argv (i : ℕ)
  deriving DecidableEq

/-- The local arrays of `wpa_cli_execute`. An entry of `argv` points to a position of `tmp_cmd`
or is NULL; `stores` records what was written. -/
structure Tokens where
  tmpCmd : Bytes
  argv : List (Option ℕ)
  stores : List Store

/-- A store that stays inside its array, and inside a line of `length` bytes. -/
def Store.Inside (length : ℕ) : Store → Prop
  | .tmpCmd i => i < 1024
  | .line i => i < length
  | .argv i => i < kMaxArgs

theorem Store.inside_append {length : ℕ} {old new : List Store} (hnew : ∀ x ∈ new, x.Inside length)
    (hold : ∀ x ∈ old, x.Inside length) : ∀ x ∈ old ++ new, x.Inside length :=
  fun x hx => (List.mem_append.mp hx).elim (hold x) (hnew x)

namespace Tokens

def storeTmpCmd (s : Tokens) (i : ℕ) (c : UInt8) : Except Fault Tokens := do
  return { s with tmpCmd := ← store .tmpCmd s.tmpCmd i c, stores := s.stores ++ [.tmpCmd i] }

def storeLine (s : Tokens) (i : ℕ) (c : UInt8) : Except Fault Tokens := do
  return { s with tmpCmd := ← store .tmpCmd s.tmpCmd i c, stores := s.stores ++ [.line i] }

def storeArgv (s : Tokens) (i : ℕ) (p : Option ℕ) : Except Fault Tokens := do
  return { s with argv := ← store .argv s.argv i p, stores := s.stores ++ [.argv i] }

/-- `strcpy(tmp_cmd, cmd)` from the index `i` on. -/
def strcpy (s : Tokens) (i : ℕ) : Bytes → Except Fault Tokens
  | [] => s.storeTmpCmd i 0
  | c :: cmd => do (← s.storeTmpCmd i c).strcpy (i+1) cmd

/-- The test of the inner loop that looks for the end of a word. -/
def isArgChar (c : UInt8) : Bool := c != 0 && !isBlank c

/-- The loop of `parse_line`: `room` entries of `argv` are left, `line` is the pointer. -/
def parseLoop : ℕ → Tokens → ℕ → ℕ → Except Fault (Tokens × ℕ)
  | 0, s, _, nargs => .ok (s,nargs)
  | room+1, s, line, nargs => do
    let line ← advance .tmpCmd isBlank s.tmpCmd line
    if (← load .tmpCmd s.tmpCmd line) = 0 then
      return (← s.storeArgv nargs none,nargs)
    let s ← s.storeArgv nargs (some line)
    let nargs := nargs+1
    let line ← advance .tmpCmd isArgChar s.tmpCmd line
    if (← load .tmpCmd s.tmpCmd line) = 0 then
      return (← s.storeArgv nargs none,nargs)
    let s ← s.storeLine line 0
    parseLoop room s (line+1) nargs

def parseLine (s : Tokens) : Except Fault (Tokens × ℕ) := parseLoop kMaxArgs s 0 0

/-- The strings that the first entries of `argv` point to. -/
def args (s : Tokens) (argc : ℕ) : List Bytes :=
  (s.argv.take argc).filterMap (·.map fun p => cstr (s.tmpCmd.drop p))

end Tokens

/-- The part of `wpa_cli_execute` in front of the request. The entries of `argv` are not
initialised; before `init_wpa_cli` nothing is tokenized. -/
def tokenizeCommand (w : Wrapper D) (cmd : CString) (argv : Vector (Option ℕ) kMaxArgs) :
    Except Fault (Option (Tokens × ℕ)) :=
  if !w.initialized then .ok none
  else do
    let s ← Tokens.strcpy ⟨List.replicate 1024 0,argv.toList,[]⟩ 0 cmd.bytes
    return some (← s.parseLine)

namespace Tokens

variable {s : Tokens}

theorem storeTmpCmd_append {l r : Bytes} {x : UInt8} (h : s.tmpCmd = l ++ x :: r) (c : UInt8) :
    s.storeTmpCmd l.length c =
      .ok { s with tmpCmd := l ++ c :: r, stores := s.stores ++ [.tmpCmd l.length] } := by
  rw [storeTmpCmd,h,store_append]
  rfl

theorem storeLine_append {l r : Bytes} {x : UInt8} (h : s.tmpCmd = l ++ x :: r) (c : UInt8) :
    s.storeLine l.length c =
      .ok { s with tmpCmd := l ++ c :: r, stores := s.stores ++ [.line l.length] } := by
  rw [storeLine,h,store_append]
  rfl

theorem storeArgv_append {l r : List (Option ℕ)} {x : Option ℕ} (h : s.argv = l ++ x :: r)
    (p : Option ℕ) : s.storeArgv l.length p =
      .ok { s with argv := l ++ p :: r, stores := s.stores ++ [.argv l.length] } := by
  rw [storeArgv,h,store_append]
  rfl

theorem storeArgv_full {i : ℕ} (h : s.argv.length ≤ i) (p : Option ℕ) :
    s.storeArgv i p = .error .argv := by
  rw [storeArgv,store_full h]
  rfl

/-- A command that does not fit is written past the end of `tmp_cmd`. -/
theorem strcpy_full {i : ℕ} {cmd : Bytes} (h : s.tmpCmd.length ≤ i+cmd.length) :
    s.strcpy i cmd = .error .tmpCmd := by
  induction cmd generalizing s i with
  | nil =>
    rw [strcpy,storeTmpCmd,store_full (by simpa using h)]
    rfl
  | cons c cmd ih =>
    rw [strcpy,storeTmpCmd]
    rcases Nat.lt_or_ge i s.tmpCmd.length with hi | hi
    · rw [store,if_pos hi]
      apply ih
      rw [List.length_cons] at h
      change (s.tmpCmd.set i c).length ≤ _
      rw [List.length_set]
      omega
    · rw [store_full hi]
      rfl

/-- A command that fits stands at the start of `tmp_cmd`, and the rest keeps its contents. -/
theorem strcpy_fits {done old rest cmd : Bytes} (h : s.tmpCmd = done ++ (old ++ rest))
    (hold : old.length = cmd.length+1) : ∃ new,
      s.strcpy done.length cmd = .ok ⟨done ++ (cmd ++ 0 :: rest),s.argv,s.stores ++ new⟩ ∧
      ∀ x ∈ new, ∃ i, x = .tmpCmd i ∧ i ≤ done.length+cmd.length := by
  induction cmd generalizing s done old with
  | nil =>
    obtain ⟨x,rfl⟩ := List.length_eq_one_iff.mp hold
    refine ⟨[.tmpCmd done.length],storeTmpCmd_append h 0,fun x hx => ?_⟩
    rw [List.mem_singleton] at hx
    exact ⟨done.length,hx,le_rfl⟩
  | cons c cmd ih =>
    obtain ⟨x,old,rfl⟩ := List.exists_cons_of_length_eq_add_one hold
    have hstore := storeTmpCmd_append (show s.tmpCmd = done ++ x :: (old ++ rest) from h) c
    have hnext : (⟨done ++ c :: (old ++ rest),s.argv,s.stores ++ [.tmpCmd done.length]⟩ :
        Tokens).tmpCmd = (done ++ [c]) ++ (old ++ rest) := by simp
    obtain ⟨new,hcopy,hnew⟩ := ih hnext (by simpa using hold)
    refine ⟨.tmpCmd done.length :: new,?_,fun y hy => ?_⟩
    · rw [strcpy,hstore,ok_bind]
      simpa using hcopy
    · rcases List.mem_cons.mp hy with rfl | hy
      · exact ⟨done.length,rfl,by omega⟩
      · obtain ⟨i,rfl,hi⟩ := hnew y hy
        refine ⟨i,rfl,?_⟩
        simp only [List.length_append,List.length_cons,List.length_nil] at hi ⊢
        omega

/-- At the end of the line the list of words is closed. -/
theorem parseLoop_blank {done pre tail : Bytes} (h : s.tmpCmd = done ++ (pre ++ 0 :: tail))
    (hpre : ∀ c ∈ pre, isBlank c) (room nargs : ℕ) :
    parseLoop (room+1) s done.length nargs = do return (← s.storeArgv nargs none,nargs) := by
  have hload : load Fault.tmpCmd s.tmpCmd (done.length+pre.length) = .ok 0 := by
    rw [h,← List.append_assoc,← List.length_append,load_append]
  have hskip : advance Fault.tmpCmd isBlank s.tmpCmd done.length = .ok (done.length+pre.length) := by
    rw [h,advance_append done hpre rfl]
  rw [parseLoop,hskip]
  simp only [ok_bind,hload,if_true]

/-- A word takes an entry of `argv`; what ends it decides how the loop goes on. -/
theorem parseLoop_word {done pre w rest : Bytes} {c : UInt8}
    (h : s.tmpCmd = done ++ (pre ++ (w ++ c :: rest))) (hpre : ∀ x ∈ pre, isBlank x)
    (hw : IsWord isBlank w) (h0 : 0 ∉ w) (hc : isArgChar c = false)
    {filled others : List (Option ℕ)} {x : Option ℕ} (hargv : s.argv = filled ++ x :: others)
    (room : ℕ) :
    parseLoop (room+1) s done.length filled.length =
      let p := (done ++ pre).length
      let s' : Tokens := { s with argv := filled ++ some p :: others,
                                  stores := s.stores ++ [.argv filled.length] }
      if c = 0 then do return (← s'.storeArgv (filled.length+1) none,filled.length+1)
      else (do parseLoop room (← s'.storeLine (p+w.length) 0) (p+w.length+1) (filled.length+1)) := by
  obtain ⟨a,v,rfl⟩ := List.exists_cons_of_ne_nil hw.1
  have ha : isBlank a = false := hw.2 a (by simp)
  have ha0 : a ≠ 0 := fun heq => h0 (by simp [heq])
  have harg : ∀ y ∈ a :: v, isArgChar y := by
    intro y hy
    have hy0 : y ≠ 0 := fun heq => h0 (heq ▸ hy)
    simp [isArgChar,hw.2 y hy,hy0]
  have hline : s.tmpCmd = (done ++ pre) ++ (a :: v ++ c :: rest) := by rw [h,List.append_assoc]
  have hskip : advance Fault.tmpCmd isBlank s.tmpCmd done.length = .ok (done ++ pre).length := by
    rw [h,List.length_append]
    exact advance_append done hpre ha (v ++ c :: rest)
  have hfirst : load Fault.tmpCmd s.tmpCmd (done ++ pre).length = .ok a := by
    rw [hline]
    exact load_append (done ++ pre) a (v ++ c :: rest)
  have hend : advance Fault.tmpCmd isArgChar s.tmpCmd (done ++ pre).length =
      .ok ((done ++ pre).length+(a :: v).length) := by
    rw [hline]
    exact advance_append (done ++ pre) harg hc rest
  have hlast : load Fault.tmpCmd s.tmpCmd ((done ++ pre).length+(a :: v).length) = .ok c := by
    rw [hline,← List.append_assoc,← List.length_append]
    exact load_append _ c rest
  rw [parseLoop,hskip]
  simp only [ok_bind,hfirst,if_neg ha0,storeArgv_append hargv,hend,hlast]

/-- The arrays after a word that a blank ends: the blank is a NUL now. -/
def afterWord (s : Tokens) (done pre w rest : Bytes) (filled others : List (Option ℕ)) : Tokens where
  tmpCmd := (done ++ pre ++ w ++ [0]) ++ rest
  argv := (filled ++ [some (done ++ pre).length]) ++ others
  stores := s.stores ++ [.argv filled.length,.line (done ++ pre ++ w).length]

theorem parseLoop_next {done pre w rest : Bytes} {c : UInt8}
    (h : s.tmpCmd = done ++ (pre ++ (w ++ c :: rest))) (hpre : ∀ x ∈ pre, isBlank x)
    (hw : IsWord isBlank w) (h0 : 0 ∉ w) (hc : isBlank c)
    {filled others : List (Option ℕ)} {x : Option ℕ} (hargv : s.argv = filled ++ x :: others)
    (room : ℕ) :
    parseLoop (room+1) s done.length filled.length =
      parseLoop room (s.afterWord done pre w rest filled others) (done ++ pre ++ w ++ [0]).length
        (filled ++ [some (done ++ pre).length]).length := by
  have hc0 : c ≠ 0 := by
    rintro rfl
    cases hc
  have hline : s.tmpCmd = (done ++ pre ++ w) ++ c :: rest := by simp [h]
  have hlen : (done ++ pre ++ w).length = (done ++ pre).length+w.length := List.length_append
  rw [parseLoop_word h hpre hw h0 (by simp [isArgChar,hc]) hargv room]
  dsimp only
  rw [if_neg hc0,← hlen,storeLine_append (by exact hline),ok_bind,afterWord]
  simp only [List.length_append,List.length_cons,List.length_nil,List.append_assoc,List.cons_append,
    List.nil_append,Nat.add_assoc,Nat.zero_add]

/-- What the loop leaves behind after it found `ws`: the line in front of the pointer and the
`filled` entries of `argv` are kept, the next entries point to the words, each terminated in the
line, and every store was inside. -/
structure Placed (s : Tokens) (done : Bytes) (filled : List (Option ℕ)) (length : ℕ)
    (ws : List Bytes) (s' : Tokens) : Prop where
  kept : done <+: s'.tmpCmd
  entries : ∃ ps : List ℕ, filled ++ ps.map some <+: s'.argv ∧
    List.Forall₂ (fun p w => Holds (s'.tmpCmd.drop p) w) ps ws
  inside : (∀ x ∈ s.stores, x.Inside length) → ∀ x ∈ s'.stores, x.Inside length

theorem Placed.nil {s' : Tokens} {done : Bytes} {filled : List (Option ℕ)} {length : ℕ}
    (hline : done <+: s'.tmpCmd) (hargv : filled <+: s'.argv)
    (hin : (∀ x ∈ s.stores, x.Inside length) → ∀ x ∈ s'.stores, x.Inside length) :
    s.Placed done filled length [] s' :=
  ⟨hline,⟨[],by simpa using hargv,.nil⟩,hin⟩

/-- The word found first, in front of those that the rest of the loop finds. -/
theorem Placed.cons {s₁ s' : Tokens} {done pre w : Bytes} {filled : List (Option ℕ)} {length : ℕ}
    {ws : List Bytes}
    (hin : (∀ x ∈ s.stores, x.Inside length) → ∀ x ∈ s₁.stores, x.Inside length)
    (h : s₁.Placed (done ++ pre ++ w ++ [0]) (filled ++ [some (done ++ pre).length]) length ws s') :
    s.Placed done filled length (w :: ws) s' := by
  obtain ⟨hkept,⟨ps,hps,hws⟩,hin'⟩ := h
  have hfront : done <+: done ++ pre ++ w ++ [0] := by
    rw [List.append_assoc,List.append_assoc]
    exact List.prefix_append _ _
  have hhold : Holds (s'.tmpCmd.drop (done ++ pre).length) w := by
    obtain ⟨t,ht⟩ := hkept
    refine ⟨t,?_⟩
    rw [← ht,List.append_assoc,List.append_assoc (done ++ pre),List.drop_left]
    simp
  refine ⟨hfront.trans hkept,⟨(done ++ pre).length :: ps,?_,.cons hhold hws⟩,fun hs => hin' (hin hs)⟩
  simpa using hps

/-- With one word too many for the closing NULL the loop leaves `argv`. -/
theorem parseLoop_overfills {room : ℕ} {done rest tail : Bytes} {filled others : List (Option ℕ)}
    (h : s.tmpCmd = done ++ (rest ++ 0 :: tail)) (h0 : 0 ∉ rest) (hargv : s.argv = filled ++ others)
    (hroom : others.length = room) (ho : Overfills room rest) :
    parseLoop room s done.length filled.length = .error .argv := by
  induction room generalizing s done rest filled others with
  | zero => exact absurd ho (not_overfills_zero rest)
  | succ room ih =>
    obtain ⟨x,others,rfl⟩ := List.exists_cons_of_length_eq_add_one hroom
    rcases first_word_cases (p := isBlank) rest with hb | ⟨pre,w,hpre,hw,rfl | ⟨c,rest,hc,rfl⟩⟩
    · exact absurd ho.2 (not_endsInWord hb)
    · have hzero : room = 0 := by
        have hlen := ho.1
        rw [words_delims_append hpre,words_of_word hw] at hlen
        simpa using hlen.symm
      have hnil : others = [] := by simpa [hzero] using hroom
      rw [parseLoop_word (by simpa using h) hpre hw (by simp_all) rfl hargv]
      dsimp only
      rw [if_pos rfl,storeArgv_full (by simp [hnil])]
      rfl
    · rw [parseLoop_next (by simpa using h) hpre hw (by simp_all) hc hargv]
      have hargs : (s.afterWord done pre w (rest ++ 0 :: tail) filled others).argv =
          (filled ++ [some (done ++ pre).length]) ++ others := rfl
      apply ih rfl _ hargs (by simpa using hroom) ((overfills_succ hpre hw hc room).mp ho)
      simp_all

/-- The last word of a line, with an entry left behind it. -/
theorem parseLoop_last {done pre w tail : Bytes} (h : s.tmpCmd = done ++ (pre ++ (w ++ 0 :: tail)))
    (hpre : ∀ x ∈ pre, isBlank x) (hw : IsWord isBlank w) (h0 : 0 ∉ w)
    {filled others : List (Option ℕ)} {x y : Option ℕ} (hargv : s.argv = filled ++ x :: y :: others)
    (hmax : filled.length+1 < kMaxArgs) (room length : ℕ) :
    ∃ s', parseLoop (room+1) s done.length filled.length = .ok (s',filled.length+1) ∧
      s.Placed done filled length [w] s' := by
  let s₁ : Tokens := { s with argv := (filled ++ [some (done ++ pre).length]) ++ y :: others,
                              stores := s.stores ++ [.argv filled.length] }
  have hclose := storeArgv_append (s := s₁) rfl none
  have hlen : filled.length+1 = (filled ++ [some (done ++ pre).length]).length := by simp
  have hloop := parseLoop_word h hpre hw h0 rfl hargv room
  dsimp only at hloop
  rw [if_pos rfl,List.append_cons,hlen] at hloop
  have hin : ∀ {i : ℕ}, i < kMaxArgs → ∀ z ∈ [Store.argv i], z.Inside length := by
    intro i hi z hz
    rw [List.mem_singleton.mp hz]
    exact hi
  have hnil : s₁.Placed (done ++ pre ++ w ++ [0]) (filled ++ [some (done ++ pre).length]) length []
      { s₁ with argv := (filled ++ [some (done ++ pre).length]) ++ none :: others,
                stores := s₁.stores ++ [.argv (filled ++ [some (done ++ pre).length]).length] } :=
    Placed.nil ⟨tail,by simp [s₁,h]⟩ ⟨none :: others,rfl⟩
      (Store.inside_append (hin (by simpa using hmax)))
  rw [hlen]
  exact ⟨_,hloop.trans (congrArg (· >>= fun s => pure (s,_)) hclose),
    Placed.cons (Store.inside_append (hin (by omega))) hnil⟩

/-- Every other line is read to its end or until `argv` is full, inside the arrays. -/
theorem parseLoop_fits {room : ℕ} {done rest tail : Bytes} {filled others : List (Option ℕ)}
    (h : s.tmpCmd = done ++ (rest ++ 0 :: tail)) (h0 : 0 ∉ rest) (hargv : s.argv = filled ++ others)
    (hroom : others.length = room) (hmax : filled.length+room = kMaxArgs)
    (ho : ¬ Overfills room rest) :
    ∃ s', parseLoop room s done.length filled.length =
        .ok (s',filled.length+((words isBlank rest).take room).length) ∧
      s.Placed done filled (done.length+rest.length) ((words isBlank rest).take room) s' := by
  induction room generalizing s done rest filled others with
  | zero =>
    rw [List.take_zero]
    exact ⟨s,rfl,Placed.nil ⟨_,h.symm⟩ ⟨_,hargv.symm⟩ id⟩
  | succ room ih =>
    obtain ⟨x,others,rfl⟩ := List.exists_cons_of_length_eq_add_one hroom
    have hfirst : filled.length < kMaxArgs := by omega
    rcases first_word_cases (p := isBlank) rest with hb | ⟨pre,w,hpre,hw,rfl | ⟨c,rest,hc,rfl⟩⟩
    · rw [words_of_delims hb,List.take_nil,parseLoop_blank h hb,storeArgv_append hargv]
      refine ⟨_,rfl,Placed.nil ⟨_,h.symm⟩ ⟨_,rfl⟩ (Store.inside_append fun y hy => ?_)⟩
      rw [List.mem_singleton.mp hy]
      exact hfirst
    · have hwords : words isBlank (pre ++ w) = [w] := by
        rw [words_delims_append hpre,words_of_word hw]
      have hpos : room ≠ 0 := fun heq => ho ⟨by rw [hwords,heq]; rfl,endsInWord_word pre hw⟩
      obtain ⟨n,rfl⟩ := Nat.exists_eq_succ_of_ne_zero hpos
      obtain ⟨y,others,rfl⟩ := List.exists_cons_of_length_eq_add_one (by simpa using hroom)
      rw [hwords]
      exact parseLoop_last (by simpa using h) hpre hw (by simp_all) hargv (by omega) _ _
    · have hwords : words isBlank (pre ++ (w ++ c :: rest)) = w :: words isBlank rest := by
        rw [words_delims_append hpre,words_word_cons hw hc]
      have hlen : done.length+(pre ++ (w ++ c :: rest)).length =
          (done ++ pre ++ w ++ [0]).length+rest.length := by
        simp only [List.length_append,List.length_cons,List.length_nil]
        omega
      have hafter : (s.afterWord done pre w (rest ++ 0 :: tail) filled others).tmpCmd =
          (done ++ pre ++ w ++ [0]) ++ (rest ++ 0 :: tail) := rfl
      obtain ⟨s',hs',hplaced⟩ := ih hafter (by simp_all) rfl (by simpa using hroom)
        (by rw [List.length_append,List.length_singleton]; omega)
        (fun h => ho ((overfills_succ hpre hw hc room).mpr h))
      rw [parseLoop_next (by simpa using h) hpre hw (by simp_all) hc hargv,hs',hwords,
        List.take_succ_cons,hlen]
      refine ⟨s',?_,Placed.cons (Store.inside_append fun y hy => ?_) hplaced⟩
      · simp only [List.length_append,List.length_cons,List.length_nil]
        congr 2
        omega
      · rcases List.mem_cons.mp hy with rfl | hy
        · exact hfirst
        · rw [List.mem_singleton.mp hy]
          change (done ++ pre ++ w).length < (done ++ pre ++ w ++ [0]).length+rest.length
          simp only [List.length_append,List.length_cons,List.length_nil]
          omega

/-- The entries of `argv` stand for the words that were found. -/
theorem Placed.args_eq {s' : Tokens} {length : ℕ} {ws : List Bytes}
    (h : s.Placed [] [] length ws s') (h0 : ∀ w ∈ ws, 0 ∉ w) : s'.args ws.length = ws := by
  obtain ⟨-,⟨ps,⟨rest,hps⟩,hws⟩,-⟩ := h
  rw [args,← hps,← hws.length_eq,List.nil_append,List.take_left' (List.length_map _)]
  clear hps
  induction hws with
  | nil => rfl
  | cons hold _ ih =>
    have hcstr := hold.cstr_eq
    rw [cstr_eq_self (h0 _ List.mem_cons_self)] at hcstr
    simp only [List.map_cons,List.filterMap_cons,Option.map_some,hcstr]
    rw [ih fun w hw => h0 w (List.mem_cons_of_mem _ hw)]

/-- Entry number `i` points to word number `i`, which is terminated in the line. -/
theorem Placed.entry {s' : Tokens} {length : ℕ} {ws : List Bytes}
    (h : s.Placed [] [] length ws s') {i : ℕ} {w : Bytes} (hw : ws[i]? = some w) :
    ∃ p, s'.argv[i]? = some (some p) ∧ Holds (s'.tmpCmd.drop p) w := by
  obtain ⟨-,⟨ps,⟨rest,hps⟩,hws⟩,-⟩ := h
  obtain ⟨hi,rfl⟩ := List.getElem?_eq_some_iff.mp hw
  have hp : i < ps.length := hws.length_eq ▸ hi
  refine ⟨ps[i],?_,hws.get hp hi⟩
  rw [← hps,List.nil_append,List.getElem?_append_left (by simpa using hp)]
  simp [hp]

end Tokens

/-- The arrays of `wpa_cli_execute` when it calls `parse_line`. -/
theorem copy_eq {cmd : Bytes} (h : cmd.length < 1024) (argv : List (Option ℕ)) : ∃ new rest,
    Tokens.strcpy ⟨List.replicate 1024 0,argv,[]⟩ 0 cmd = .ok ⟨cmd ++ 0 :: rest,argv,new⟩ ∧
      ∀ x ∈ new, x.Inside cmd.length := by
  have hzero : List.replicate 1024 (0 : UInt8) =
      [] ++ (List.replicate (cmd.length+1) 0 ++ List.replicate (1023-cmd.length) 0) := by
    rw [List.nil_append,List.replicate_append_replicate]
    congr 1
    omega
  obtain ⟨new,hcopy,hnew⟩ := Tokens.strcpy_fits (s := ⟨List.replicate 1024 0,argv,[]⟩) hzero
    List.length_replicate
  refine ⟨new,_,hcopy,fun x hx => ?_⟩
  obtain ⟨i,rfl,hi⟩ := hnew x hx
  change i < 1024
  rw [List.length_nil] at hi
  omega

theorem tokenizeCommand_fits {w : Wrapper D} (hw : w.initialized) {cmd : CString}
    (hl : cmd.bytes.length < 1024) (ho : ¬ Overfills kMaxArgs cmd.bytes)
    (argv : Vector (Option ℕ) kMaxArgs) :
    ∃ s₀ s : Tokens, tokenizeCommand w cmd argv = .ok (some (s,(lineWords cmd.bytes).length)) ∧
      (∀ x ∈ s₀.stores, x.Inside cmd.bytes.length) ∧
      s₀.Placed [] [] cmd.bytes.length (lineWords cmd.bytes) s := by
  obtain ⟨new,rest,hcopy,hnew⟩ := copy_eq hl argv.toList
  let s₁ : Tokens := ⟨cmd.bytes ++ 0 :: rest,argv.toList,new⟩
  have hline : s₁.tmpCmd = [] ++ (cmd.bytes ++ 0 :: rest) := rfl
  have hargv : s₁.argv = [] ++ argv.toList := rfl
  obtain ⟨s,hs,hplaced⟩ := Tokens.parseLoop_fits hline cmd.noNul hargv argv.length_toList
    (Nat.zero_add _) ho
  simp only [List.length_nil,Nat.zero_add] at hs hplaced
  refine ⟨_,s,?_,hnew,hplaced⟩
  rw [tokenizeCommand,if_neg (by simp [hw]),hcopy,ok_bind,Tokens.parseLine,hs]
  rfl

theorem tokenizeCommand_fault {w : Wrapper D} (hw : w.initialized) {cmd : CString}
    (argv : Vector (Option ℕ) kMaxArgs) (h : 1024 ≤ cmd.bytes.length ∨ Overfills kMaxArgs cmd.bytes) :
    tokenizeCommand w cmd argv = .error (if 1024 ≤ cmd.bytes.length then .tmpCmd else .argv) := by
  rw [tokenizeCommand,if_neg (by simp [hw])]
  by_cases hl : 1024 ≤ cmd.bytes.length
  · have hfull : (List.replicate 1024 (0 : UInt8)).length ≤ 0+cmd.bytes.length := by
      rw [List.length_replicate,Nat.zero_add]
      exact hl
    rw [if_pos hl,Tokens.strcpy_full (by exact hfull)]
    rfl
  · obtain ⟨new,rest,hcopy,-⟩ := copy_eq (Nat.lt_of_not_le hl) argv.toList
    let s₁ : Tokens := ⟨cmd.bytes ++ 0 :: rest,argv.toList,new⟩
    have hline : s₁.tmpCmd = [] ++ (cmd.bytes ++ 0 :: rest) := rfl
    have hargv : s₁.argv = [] ++ argv.toList := rfl
    have hloop := Tokens.parseLoop_overfills hline cmd.noNul hargv argv.length_toList
      (h.resolve_left hl)
    rw [List.length_nil,List.length_nil] at hloop
    rw [if_neg hl,hcopy,ok_bind,Tokens.parseLine,hloop]
    rfl

/-- `wpa_cli_execute` passes on the strings that `argv` points to. -/
theorem wpaCliExecute_tokens (cfg : BuildConfig) (w : Wrapper D) (cmd : CString) (buf : Bytes)
    (argv : Vector (Option ℕ) kMaxArgs) :
    wpaCliExecute cfg w cmd buf = (do
      match ← tokenizeCommand w cmd argv with
      | none => .ok ⟨w,-1,buf⟩
      | some (s,argc) => wpaRequestWithResultBuf cfg w (s.args argc) buf) := by
  cases hw : w.initialized with
  | false => simp [wpaCliExecute,tokenizeCommand,hw,ok_bind]
  | true =>
    by_cases h : 1024 ≤ cmd.bytes.length ∨ Overfills kMaxArgs cmd.bytes
    · rw [wpaCliExecute_fault cfg hw h,tokenizeCommand_fault hw argv h,error_bind]
    · rw [not_or,Nat.not_le] at h
      obtain ⟨s₀,s,hs,-,hplaced⟩ := tokenizeCommand_fits hw h.1 h.2 argv
      have h0 : ∀ v ∈ lineWords cmd.bytes, 0 ∉ v := fun v hv h0 =>
        cmd.noNul (mem_of_mem_words (List.mem_of_mem_take hv) h0)
      rw [wpaCliExecute_eq cfg hw h.1 h.2,hs,ok_bind]
      simp only [hplaced.args_eq h0,wpaRequestWithResultBuf_eq]

/-- What tokenizing is for: every store is inside its array and inside the line, and up to
`kMaxArgs` words are all found, each terminated in the line. -/
def TokenizesInside (w : Wrapper D) (cmd : CString) (argv : Vector (Option ℕ) kMaxArgs) : Prop :=
  ∃ r, tokenizeCommand w cmd argv = .ok r ∧ ∀ (s : Tokens) argc, r = some (s,argc) →
    (∀ x ∈ s.stores, x.Inside cmd.bytes.length) ∧
    ((words isBlank cmd.bytes).length ≤ kMaxArgs →
      argc = (words isBlank cmd.bytes).length ∧
      ∀ (i : ℕ) word, (words isBlank cmd.bytes)[i]? = some word →
        ∃ p, s.argv[i]? = some (some p) ∧ Holds (s.tmpCmd.drop p) word)

/-- An initialised wrapper tokenizes exactly the commands shorter than `tmp_cmd` that do not end
in the word that fills `argv`. -/
theorem tokenizesInside_iff (w : Wrapper D) (cmd : CString) (argv : Vector (Option ℕ) kMaxArgs) :
    TokenizesInside w cmd argv ↔
      (w.initialized → cmd.bytes.length < 1024 ∧ ¬ Overfills kMaxArgs cmd.bytes) := by
  constructor
  · rintro ⟨r,hr,-⟩ hw
    by_contra h
    have hbad : 1024 ≤ cmd.bytes.length ∨ Overfills kMaxArgs cmd.bytes := by
      by_contra hno
      rw [not_or,Nat.not_le] at hno
      exact h hno
    rw [tokenizeCommand_fault hw argv hbad] at hr
    cases hr
  · intro h
    cases hw : w.initialized with
    | false =>
      refine ⟨none,by simp [tokenizeCommand,hw],fun s argc hr => ?_⟩
      cases hr
    | true =>
      obtain ⟨s₀,s,hs,hin,hplaced⟩ := tokenizeCommand_fits hw (h hw).1 (h hw).2 argv
      refine ⟨_,hs,fun s' argc heq => ?_⟩
      cases heq
      refine ⟨hplaced.inside hin,fun hfew => ?_⟩
      rw [lineWords,List.take_of_length_le hfew] at hplaced ⊢
      exact ⟨rfl,fun i word hi => hplaced.entry hi⟩

/-- Sixteen words with nothing behind the last one. -/
def sixteenWords : CString := ⟨ascii "set_cred 0 a b c d e f g h i j k l m n",by decide⟩

theorem sixteenWords_leave_argv :
    ¬ ∀ (w : Wrapper anyDaemon) (cmd : CString) (argv : Vector (Option ℕ) kMaxArgs),
      TokenizesInside w cmd argv := by
  intro h
  obtain ⟨r,hr,-⟩ := h (.connected (freshConn ())) sixteenWords (.replicate kMaxArgs none)
  have hover : Overfills kMaxArgs sixteenWords.bytes := by decide
  rw [tokenizeCommand_fault rfl _ (.inr hover)] at hr
  cases hr

end WpaCliWrapper
