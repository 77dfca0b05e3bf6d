import WpaCliWrapper.CText.Abbreviation
import WpaCliWrapper.Wrapper.History

/-! Which row of a command table a request calls, for any table whose names differ. -/
namespace WpaCliWrapper
open CText Exchange

/-- What `wpa_request` and `wpa_request_with_result_buf` come to: the call of a row's handler, or
some output and a result. -/
inductive Reaction (ρ : Type*) where
  | calls (row : ρ) (args : List Bytes)
  | returns (printed : List Bytes) (ret : ℤ)

section Table
variable {ρ : Type*} (name : ρ → Bytes) (table : List ρ)

/-- The selection loop of both functions, over any table. -/
def selectRow (word : Bytes) : Lookup ρ :=
  Lookup.lookup (fun row => hasPrefixCase (name row) word) (fun row => eqCase (name row) word) table

def ambiguousMessage (word : Bytes) : List Bytes :=
  [ascii "Ambiguous command '" ++ word ++ ascii "'; possible commands:"] ++
    ((table.filter fun row => hasPrefixCase (name row) word).map fun row => 32 :: name row) ++
      [ascii "\n"]

/-- The body that both functions share; only the handler that is called differs. -/
def react (argv : List Bytes) : Reaction ρ :=
  match (stripIfname argv).2 with
  | [] => .returns [] (-1)
  | word :: args =>
    match selectRow name table word with
    | .ambiguous => .returns (ambiguousMessage name table word) 1
    | .unknown => .returns [unknownCommand word] 1
    | .found row => .calls row args

variable {name table}

theorem react_cons {argv args : List Bytes} {word : Bytes}
    (hargv : (stripIfname argv).2 = word :: args) : react name table argv =
      match selectRow name table word with
      | .ambiguous => .returns (ambiguousMessage name table word) 1
      | .unknown => .returns [unknownCommand word] 1
      | .found row => .calls row args := by
  rw [react,hargv]

end Table

section Instances
variable {D : Daemon} (cfg : BuildConfig)

/-- The printing handlers that are part of the model give a result. -/
def wpaRequest (w : Wrapper D) (argv : List Bytes) : Option (Except Fault (Wrapper D × ℤ)) :=
  let w := { w with ifnamePrefix := (stripIfname argv).1 }
  match (stripIfname argv).2 with
  | [] => some (.ok (w,-1))
  | name :: args =>
    match selectCommand cfg name with
    | .ambiguous => some (.ok ({ w with stdout := w.stdout ++ ambiguousCommand cfg name },1))
    | .unknown => some (.ok (w.print (unknownCommand name),1))
    | .found cmd => cmd.handler.run cfg w args

theorem matchLoop_eq_pass (word : Bytes) (count : ℕ) (found : Option WpaCliCmd)
    (cmds : List WpaCliCmd) : matchLoop word count found cmds =
      Lookup.pass (hasPrefixCase ·.cmd word) (eqCase ·.cmd word) count found cmds := by
  induction cmds generalizing count found with
  | nil => rfl
  | cons cmd cmds ih => rw [matchLoop,Lookup.pass,ih,ih]

theorem selectCommand_eq (word : Bytes) : selectCommand cfg word =
    match selectRow (·.cmd) (wpaCliCommands cfg) word with
    | .ambiguous => .ambiguous
    | .unknown => .unknown
    | .found cmd => .found cmd := by
  rw [selectCommand,selectRow,Lookup.lookup,matchLoop_eq_pass]
  generalize Lookup.pass _ _ _ _ _ = counted
  obtain ⟨count,found⟩ := counted
  rcases count with _ | _ | count
  · rfl
  · cases found <;> rfl
  · rfl

theorem ambiguousCommand_eq (word : Bytes) :
    ambiguousCommand cfg word = ambiguousMessage (·.cmd) (wpaCliCommands cfg) word := by
  rw [ambiguousCommand,candidates,List.map_map]
  rfl

/-- What is done with a reaction of the table of the build is done by the branches of the code. -/
theorem react_elim {β : Type*} (calls : WpaCliCmd → List Bytes → β)
    (returns : List Bytes → ℤ → β) (argv : List Bytes) :
    (match react (·.cmd) (wpaCliCommands cfg) argv with
      | .calls cmd args => calls cmd args
      | .returns printed ret => returns printed ret) =
    match (stripIfname argv).2 with
    | [] => returns [] (-1)
    | word :: args =>
      match selectCommand cfg word with
      | .ambiguous => returns (ambiguousCommand cfg word) 1
      | .unknown => returns [unknownCommand word] 1
      | .found cmd => calls cmd args := by
  rw [react]
  cases (stripIfname argv).2 with
  | nil => rfl
  | cons word args =>
    dsimp only
    rw [selectCommand_eq,ambiguousCommand_eq]
    cases selectRow (·.cmd) (wpaCliCommands cfg) word with
    | ambiguous => rfl
    | unknown => rfl
    | found cmd => rfl

/-- The function that returns a buffer is the common body over the table of the build. -/
theorem wpaRequestWithResultBuf_react (w : Wrapper D) (argv : List Bytes) (buf : Bytes) :
    wpaRequestWithResultBuf cfg w argv buf =
      let w := { w with ifnamePrefix := (stripIfname argv).1 }
      match react (·.cmd) (wpaCliCommands cfg) argv with
      | .calls cmd args => cmd.handlerWithResults.run cfg w args buf
      | .returns printed ret => .ok ⟨{ w with stdout := w.stdout ++ printed },ret,buf⟩ := by
  dsimp only
  rw [react_elim,wpaRequestWithResultBuf]
  cases (stripIfname argv).2 with
  | nil => simp
  | cons word args => rfl

/-- So is the function that prints. -/
theorem wpaRequest_react (w : Wrapper D) (argv : List Bytes) :
    wpaRequest cfg w argv =
      let w := { w with ifnamePrefix := (stripIfname argv).1 }
      match react (·.cmd) (wpaCliCommands cfg) argv with
      | .calls cmd args => cmd.handler.run cfg w args
      | .returns printed ret => some (.ok ({ w with stdout := w.stdout ++ printed },ret)) := by
  dsimp only
  rw [react_elim,wpaRequest]
  cases (stripIfname argv).2 with
  | nil => simp
  | cons word args => rfl

/-- The prompt calls the row that the common body calls. -/
theorem wpaRequestMatch_react (argv : List Bytes) : wpaRequestMatch cfg argv =
    match react (·.cmd) (wpaCliCommands cfg) argv with
    | .calls cmd _ => some cmd
    | .returns _ _ => none := by
  rw [react_elim,wpaRequestMatch]
  cases (stripIfname argv).2 with
  | nil => rfl
  | cons word args =>
    dsimp only
    cases selectCommand cfg word <;> rfl

end Instances

section Resolution
variable {ρ : Type*} (name : ρ → Bytes) (table : List ρ)

/-- No two names are equal ignoring case. -/
def DistinctNames : Prop := table.Pairwise fun a b => ¬ eqCase (name a) (name b)

/-- A word stands for the row of that name, or without such a row for the only one that it
abbreviates. -/
def Resolves (word : Bytes) (row : ρ) : Prop :=
  row ∈ table ∧ (eqCase (name row) word ∨ (∀ r ∈ table, ¬ eqCase (name r) word) ∧
    hasPrefixCase (name row) word ∧ ∀ r ∈ table, hasPrefixCase (name r) word → r = row)

/-- The same call, or the same result with the same lines of output in any order. -/
def Reaction.Same : Reaction ρ → Reaction ρ → Prop
  | .calls row args, .calls row' args' => row = row' ∧ args = args'
  | .returns printed ret, .returns printed' ret' => printed.Perm printed' ∧ ret = ret'
  | _, _ => False

variable {name table}

theorem DistinctNames.distinct (h : DistinctNames name table) (word : Bytes) :
    Lookup.Distinct (fun row => eqCase (name row) word) table := by
  constructor
  · intro r hr s hs her hes
    by_contra hne
    have heq : eqCase (name r) (name s) := by
      rw [eqCase,beq_iff_eq] at her hes ⊢
      exact her.trans hes.symm
    have hsymm : Std.Symm fun a b : ρ => ¬ eqCase (name a) (name b) := ⟨fun a b hab hba => by
      rw [eqCase,beq_iff_eq] at hab hba
      exact hab hba.symm⟩
    exact List.Pairwise.forall h hr hs hne heq
  · apply h.imp
    rintro a b hab rfl
    exact hab (by rw [eqCase,beq_self_eq_true])

variable (h : DistinctNames name table) {argv args : List Bytes} {word : Bytes}
  (hargv : (stripIfname argv).2 = word :: args)
include h

theorem selectRow_found_iff {row : ρ} :
    selectRow name table word = .found row ↔ Resolves name table word row :=
  Lookup.lookup_found_iff (fun _ => hasPrefixCase_of_eqCase) (h.distinct word)

include hargv

theorem react_calls_iff (row : ρ) (args' : List Bytes) :
    react name table argv = .calls row args' ↔ Resolves name table word row ∧ args' = args := by
  rw [← selectRow_found_iff h,react_cons hargv]
  cases selectRow name table word with
  | ambiguous => simp
  | unknown => simp
  | found r => simp [eq_comm]

/-- The order of the table matters to the output only. -/
theorem react_perm {table' : List ρ} (hperm : table'.Perm table) :
    (react name table' argv).Same (react name table argv) := by
  have hselect : selectRow name table' word = selectRow name table word :=
    Lookup.lookup_perm (fun _ => hasPrefixCase_of_eqCase) (h.distinct word) hperm
  rw [react_cons hargv,react_cons hargv,hselect]
  cases selectRow name table word with
  | ambiguous =>
    refine ⟨?_,rfl⟩
    exact (((hperm.filter _).map _).append_left _).append_right _
  | unknown => exact ⟨.refl _,rfl⟩
  | found row => exact ⟨rfl,rfl⟩

/-- A word that neither names nor abbreviates one row alone calls no handler, and nothing depends on
the order of the table. -/
theorem react_resolves :
    (∀ row args', react name table argv = .calls row args' ↔
      Resolves name table word row ∧ args' = args) ∧
    ((∀ r ∈ table, ¬ hasPrefixCase (name r) word) →
      react name table argv = .returns [unknownCommand word] 1) ∧
    ((∀ r ∈ table, ¬ eqCase (name r) word) → (∃ a ∈ table, ∃ b ∈ table, a ≠ b ∧
        hasPrefixCase (name a) word ∧ hasPrefixCase (name b) word) →
      react name table argv = .returns (ambiguousMessage name table word) 1) ∧
    ∀ table' : List ρ, table'.Perm table → (react name table' argv).Same (react name table argv) := by
  refine ⟨react_calls_iff h hargv,fun hnone => ?_,?_,fun table' => react_perm h hargv⟩
  · have hselect : selectRow name table word = .unknown :=
      Lookup.lookup_unknown (fun _ => hasPrefixCase_of_eqCase) hnone
    rw [react_cons hargv,hselect]
  · rintro hnone ⟨a,ha,b,hb,hab,hha,hhb⟩
    have hselect : selectRow name table word = .ambiguous :=
      Lookup.lookup_ambiguous hnone ha hb hab hha hhb
    rw [react_cons hargv,hselect]

end Resolution

/-- A name between names that continue it. -/
theorem react_resolves_scan :
    react id [ascii "scan_results",ascii "scan",ascii "scan_interval"] [ascii "SCAN",ascii "x"] =
      .calls (ascii "scan") [ascii "x"] := by
  have hdistinct : DistinctNames id [ascii "scan_results",ascii "scan",ascii "scan_interval"] := by
    unfold DistinctNames
    decide
  have hargv : (stripIfname [ascii "SCAN",ascii "x"]).2 = ascii "SCAN" :: [ascii "x"] := by decide
  refine ((react_resolves hdistinct hargv).1 (ascii "scan") [ascii "x"]).mpr ⟨⟨?_,.inl ?_⟩,rfl⟩
  · exact List.mem_cons_of_mem _ List.mem_cons_self
  · decide

section Build
variable (cfg : BuildConfig)

/-- A name in lower case as one number. -/
def nameNumber (name : Bytes) : ℕ := name.foldr (fun c n => 256*n+(toLower c).toNat) 1

/-- No build has two commands of one name. -/
theorem commands_distinct : DistinctNames (·.cmd) (wpaCliCommands cfg) := by
  have hall : ((commandBlocks.flatMap (·.2)).map fun c => nameNumber c.cmd).Nodup := by
    decide +kernel
  have hnumber : ∀ a b : Bytes, eqCase a b → nameNumber a = nameNumber b := by
    intro a b hab
    rw [eqCase,beq_iff_eq] at hab
    have hfold : ∀ s : Bytes, nameNumber s =
        (s.map toLower).foldr (fun c n => 256*n+c.toNat) 1 := fun s => by
      rw [nameNumber,List.foldr_map]
    rw [hfold,hfold,hab]
  have hsub : (wpaCliCommands cfg).Sublist (commandBlocks.flatMap (·.2)) := by
    apply List.Sublist.flatMap_right
    intro block hblock
    dsimp only
    split
    · exact .refl _
    · exact List.nil_sublist _
  have hpairs := List.pairwise_map.mp hall
  exact (hpairs.imp fun hne heq => hne (hnumber _ _ heq)).sublist hsub

/-- In every build the row that a word stands for runs, with either of its handlers. -/
theorem wpaRequest_resolves {D : Daemon} (w : Wrapper D) {argv args : List Bytes} {word : Bytes}
    (hargv : (stripIfname argv).2 = word :: args) {row : WpaCliCmd}
    (hrow : Resolves (·.cmd) (wpaCliCommands cfg) word row) (buf : Bytes) :
    wpaRequest cfg w argv =
      row.handler.run cfg { w with ifnamePrefix := (stripIfname argv).1 } args ∧
    wpaRequestWithResultBuf cfg w argv buf =
      row.handlerWithResults.run cfg { w with ifnamePrefix := (stripIfname argv).1 } args buf := by
  have hcall := (react_calls_iff (commands_distinct cfg) hargv row args).mpr ⟨hrow,rfl⟩
  rw [wpaRequest_react,wpaRequestWithResultBuf_react,hcall]
  exact ⟨rfl,rfl⟩

end Build

end WpaCliWrapper
