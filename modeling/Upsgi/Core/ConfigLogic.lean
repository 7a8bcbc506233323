import Upsgi.Core.Strings

/-! # Conditional blocks of a configuration

    `add_exported_option` takes the options of a configuration one at a time.  An
    option such as `if-opt` stores a function and its argument; until the end of
    the block every option goes through that function, which evaluates the
    condition again and exports the option or notes the failure.  The options
    behind `else` are exported if the last evaluation failed.  So a part is
    exported as a whole only if its own options leave the condition true, and an
    `else` behind an empty part has no evaluation to rely on.
-/

namespace Upsgi

open Framing (Bytes)
open List

/-! ### The code -/

/-- An option with its value, which may be a null pointer. -/
abbrev ConfigOpt : Type := Bytes × Option Bytes

/-- The functions behind the `if` options. -/
inductive IfOpt where
  | if_exists | if_not_exists
  | if_opt | if_not_opt
  | if_env | if_not_env
  | if_reload | if_not_reload
  | if_file | if_not_file
  | if_dir | if_not_dir
  | if_plugin | if_not_plugin
  | if_hostname | if_not_hostname
  | if_hostname_match | if_not_hostname_match
  deriving DecidableEq, Repr

/-- The functions behind the `for` options. -/
inductive ForOpt where
  | for_tokens | for_glob | for_readline | for_times
  deriving DecidableEq, Repr

/-- The values of `logic_opt`. -/
inductive LogicOpt where
  | cond (opt : IfOpt)
  | cycle (opt : ForOpt)
  | else_opt
  deriving DecidableEq, Repr

/-- The options of the table in `upsgi.c` that set `logic_opt`. -/
def logicOptions : List (Bytes × LogicOpt) :=
  [(lit "for", .cycle .for_tokens), (lit "for-glob", .cycle .for_glob),
   (lit "for-times", .cycle .for_times), (lit "for-readline", .cycle .for_readline),
   (lit "if-opt", .cond .if_opt), (lit "if-not-opt", .cond .if_not_opt),
   (lit "if-env", .cond .if_env), (lit "if-not-env", .cond .if_not_env),
   (lit "ifenv", .cond .if_env),
   (lit "if-reload", .cond .if_reload), (lit "if-not-reload", .cond .if_not_reload),
   (lit "if-hostname", .cond .if_hostname), (lit "if-not-hostname", .cond .if_not_hostname),
   (lit "if-hostname-match", .cond .if_hostname_match),
   (lit "if-not-hostname-match", .cond .if_not_hostname_match),
   (lit "if-exists", .cond .if_exists), (lit "if-not-exists", .cond .if_not_exists),
   (lit "ifexists", .cond .if_exists),
   (lit "if-plugin", .cond .if_plugin), (lit "if-not-plugin", .cond .if_not_plugin),
   (lit "ifplugin", .cond .if_plugin),
   (lit "if-file", .cond .if_file), (lit "if-not-file", .cond .if_not_file),
   (lit "if-dir", .cond .if_dir), (lit "if-not-dir", .cond .if_not_dir),
   (lit "ifdir", .cond .if_dir), (lit "if-directory", .cond .if_dir),
   (lit "else", .else_opt)]

def logicOption (key : Bytes) : Option LogicOpt :=
  (logicOptions.find? fun option => option.1 = key).map (·.2)

/-- The options that close a block. -/
def endNames : List Bytes :=
  [lit "end", lit "endfor", lit "endif", lit "end-if", lit "end-for"]

/-- How the process may stop: `exit(1)` after a message, or the use of a null
    pointer. -/
inductive Stop where
  | exit | crash
  deriving DecidableEq, Repr

/-- What the functions read of the server and of the system, in a state `σ` that
    options may change. -/
structure Surroundings (σ : Type) where
  blacklist : σ → List Bytes
  whitelist : σ → List Bytes
  blacklist_context : σ → Option Bytes
  whitelist_context : σ → Option Bytes
  getenv : σ → Bytes → Option Bytes
  upsgi_file_exists : σ → Bytes → Bool
  upsgi_is_file : σ → Bytes → Bool
  upsgi_is_dir : σ → Bytes → Bool
  plugin_already_loaded : σ → Bytes → Bool
  hostname : σ → Bytes
  upsgi_regexp_match_pattern : σ → Bytes → Bytes → Bool
  is_a_reload : σ → Bool
  /-- The strings that a cycle runs through. -/
  cycleStrings : ForOpt → σ → Bytes → List Bytes
  /-- What is done about an option when it is exported: its flags, and its function
      if it is immediate.  The function may export options in turn, which depends on
      `logic_opt_running`, but it leaves no block open; `none` is `exit(1)`. -/
  perform : Bool → ConfigOpt → List ConfigOpt × σ → Option (List ConfigOpt × σ)

/-- The state of the configuration.  `log` is a ghost component: the options that
    came to be exported, without those that their functions export. -/
structure ConfigState (σ : Type) where
  logic_opt : Option LogicOpt
  logic_opt_arg : Option Bytes
  logic_opt_if_failed : Bool
  exported_opts : List ConfigOpt
  outside : σ
  log : List ConfigOpt

/-- The state when the process starts. -/
def ConfigState.start {σ : Type} (outside : σ) : ConfigState σ :=
  ⟨none, none, false, [], outside, []⟩

def upsgi_get_exported_opt (exported_opts : List ConfigOpt) (key : Bytes) : Option Bytes :=
  (exported_opts.find? fun opt => opt.1 = key).bind (·.2)

/-- The loops of `upsgi_substitute`; no more rounds are needed than there are
    bytes. -/
def replaceAll (what with_text : Bytes) : Nat → Bytes → Bytes
  | 0, src => src
  | _ + 1, [] => []
  | rounds + 1, c :: src =>
      if what.isPrefixOf (c :: src) then
        with_text ++ replaceAll what with_text rounds ((c :: src).drop what.length)
      else c :: replaceAll what with_text rounds src

/-- `upsgi_substitute`.  Without a replacement the source is returned as it is;
    `none` is the call of `strlen` on a null pointer. -/
def upsgi_substitute (src : Option Bytes) (what : Bytes) (with_text : Option Bytes) :
    Option (Option Bytes) :=
  match with_text with
  | none => some src
  | some text => src.map fun src => some (replaceAll what text src.length src)

def upsgi_list_has_str (list str : Bytes) : Bool :=
  ((list.splitOn SP).filter (· ≠ [])).any fun p => decide (fold p = fold str)

def upsgi_opt_logic {σ : Type} (opt : LogicOpt) (arg : Option Bytes) (st : ConfigState σ) :
    Except Stop (ConfigState σ) :=
  if st.logic_opt.isSome then .error .exit
  else .ok { st with logic_opt := some opt, logic_opt_arg := arg }

/-- The name and the value of `name=value`, cut at the first `=`. -/
def cutEqual (data : Bytes) : Bytes × Option Bytes :=
  let name := data.takeWhile (· ≠ EQUAL)
  match data.drop name.length with
  | [] => (name, none)
  | _ :: value => (name, some value)

/-- There is a value, and it is the expected one if there is one. -/
def hasValue (p expected : Option Bytes) : Bool :=
  match p, expected with
  | none, _ => false
  | some _, none => true
  | some v, some e => decide (e = v)

section Code

variable {σ : Type} (s : Surroundings σ)

/-- The checks at the beginning of `add_exported_option_do`. -/
def forbidden (key : Bytes) (outside : σ) : Bool :=
  (s.blacklist outside).elem key ||
    (!(s.whitelist outside).isEmpty && !(s.whitelist outside).elem key) ||
    ((s.blacklist_context outside).any fun list => upsgi_list_has_str list key) ||
    ((s.whitelist_context outside).any fun list => !upsgi_list_has_str list key)

/-- `add_exported_option_do` from the label `add` on, for an option that is not
    only a placeholder. -/
def exportOption (running : Bool) (opt : ConfigOpt) (st : ConfigState σ) :
    Except Stop (ConfigState σ) :=
  let st := { st with exported_opts := st.exported_opts ++ [opt], log := st.log ++ [opt] }
  match logicOption opt.1 with
  | some logic => upsgi_opt_logic logic opt.2 st
  | none =>
      match s.perform running opt (st.exported_opts, st.outside) with
      | none => .error .exit
      | some out => .ok { st with exported_opts := out.1, outside := out.2 }

/-- `add_exported_option` while `logic_opt_running` is set. -/
def addRunning (opt : ConfigOpt) (st : ConfigState σ) : Except Stop (ConfigState σ) :=
  if forbidden s opt.1 st.outside then .error .exit else exportOption s true opt st

/-- A condition, on `logic_opt_data`, the exported options and the rest: whether it
    holds, and the text for `%(_)`, which may be a null pointer. -/
abbrev IfTest (σ : Type) : Type := Bytes → List ConfigOpt → σ → Bool × Option Bytes

/-- A question about `logic_opt_data`, which is the text as well. -/
def askData (want : Bool) (ask : σ → Bytes → Bool) : IfTest σ :=
  fun data _ outside => (ask outside data == want, some data)

/-- A question about what `name` or `name=value` stands for. -/
def askValue (want : Bool) (get : List ConfigOpt → σ → Bytes → Option Bytes) : IfTest σ :=
  fun data exported_opts outside =>
    let p := get exported_opts outside (cutEqual data).1
    (hasValue p (cutEqual data).2 == want, p)

/-! The conditions of the functions `upsgi_logic_opt_if_*`; `logicIf` below is what
    they do with it.  Those for `reload` do not call `upsgi_substitute`. -/

def upsgi_logic_opt_if_exists : IfTest σ :=
  askData true s.upsgi_file_exists

def upsgi_logic_opt_if_not_exists : IfTest σ :=
  askData false s.upsgi_file_exists

def upsgi_logic_opt_if_file : IfTest σ :=
  askData true s.upsgi_is_file

def upsgi_logic_opt_if_not_file : IfTest σ :=
  askData false s.upsgi_is_file

def upsgi_logic_opt_if_dir : IfTest σ :=
  askData true s.upsgi_is_dir

def upsgi_logic_opt_if_not_dir : IfTest σ :=
  askData false s.upsgi_is_dir

def upsgi_logic_opt_if_plugin : IfTest σ :=
  askData true s.plugin_already_loaded

def upsgi_logic_opt_if_not_plugin : IfTest σ :=
  askData false s.plugin_already_loaded

def upsgi_logic_opt_if_hostname : IfTest σ :=
  askData true fun outside data =>
    decide (s.hostname outside = data)

def upsgi_logic_opt_if_not_hostname : IfTest σ :=
  askData false fun outside data =>
    decide (s.hostname outside = data)

def upsgi_logic_opt_if_hostname_match : IfTest σ :=
  askData true fun outside data =>
    s.upsgi_regexp_match_pattern outside data (s.hostname outside)

def upsgi_logic_opt_if_not_hostname_match : IfTest σ :=
  askData false fun outside data =>
    s.upsgi_regexp_match_pattern outside data (s.hostname outside)

def upsgi_logic_opt_if_opt : IfTest σ :=
  askValue true fun exported_opts _ name => upsgi_get_exported_opt exported_opts name

def upsgi_logic_opt_if_not_opt : IfTest σ :=
  askValue false fun exported_opts _ name => upsgi_get_exported_opt exported_opts name

def upsgi_logic_opt_if_env : IfTest σ :=
  askValue true fun _ outside name => s.getenv outside name

def upsgi_logic_opt_if_not_env : IfTest σ :=
  askValue false fun _ outside name => s.getenv outside name

def upsgi_logic_opt_if_reload : IfTest σ :=
  fun _ _ outside => (s.is_a_reload outside, none)

def upsgi_logic_opt_if_not_reload : IfTest σ :=
  fun _ _ outside => (!s.is_a_reload outside, none)

def IfOpt.test : IfOpt → IfTest σ
  | .if_exists => upsgi_logic_opt_if_exists s
  | .if_not_exists => upsgi_logic_opt_if_not_exists s
  | .if_opt => upsgi_logic_opt_if_opt
  | .if_not_opt => upsgi_logic_opt_if_not_opt
  | .if_env => upsgi_logic_opt_if_env s
  | .if_not_env => upsgi_logic_opt_if_not_env s
  | .if_reload => upsgi_logic_opt_if_reload s
  | .if_not_reload => upsgi_logic_opt_if_not_reload s
  | .if_file => upsgi_logic_opt_if_file s
  | .if_not_file => upsgi_logic_opt_if_not_file s
  | .if_dir => upsgi_logic_opt_if_dir s
  | .if_not_dir => upsgi_logic_opt_if_not_dir s
  | .if_plugin => upsgi_logic_opt_if_plugin s
  | .if_not_plugin => upsgi_logic_opt_if_not_plugin s
  | .if_hostname => upsgi_logic_opt_if_hostname s
  | .if_not_hostname => upsgi_logic_opt_if_not_hostname s
  | .if_hostname_match => upsgi_logic_opt_if_hostname_match s
  | .if_not_hostname_match => upsgi_logic_opt_if_not_hostname_match s

/-- What the functions `upsgi_logic_opt_if_*` have in common. -/
def logicIf (test : Bool × Option Bytes) (opt : ConfigOpt) (st : ConfigState σ) :
    Except Stop (ConfigState σ) :=
  if test.1 then
    match upsgi_substitute opt.2 (lit "%(_)") test.2 with
    | none => .error .crash
    | some value => addRunning s (opt.1, value) { st with logic_opt_if_failed := false }
  else .ok { st with logic_opt_if_failed := true }

def upsgi_logic_opt_else (opt : ConfigOpt) (st : ConfigState σ) : Except Stop (ConfigState σ) :=
  if st.logic_opt_if_failed then addRunning s opt st else .ok st

/-- What the functions `upsgi_logic_opt_for*` have in common. -/
def logicFor (strings : List Bytes) (opt : ConfigOpt) (st : ConfigState σ) :
    Except Stop (ConfigState σ) :=
  strings.foldlM (fun st p =>
    match upsgi_substitute opt.2 (lit "%(_)") (some p) with
    | none => .error .crash
    | some value => addRunning s (opt.1, value) st) st

/-- The call of `logic_opt`. -/
def LogicOpt.call (data : Bytes) (opt : ConfigOpt) (st : ConfigState σ) :
    LogicOpt → Except Stop (ConfigState σ)
  | .cond c => logicIf s (c.test s data st.exported_opts st.outside) opt st
  | .cycle f => logicFor s (s.cycleStrings f st.outside data) opt st
  | .else_opt => upsgi_logic_opt_else s opt st

/-- The parts of `add_exported_option_do` for the end of a block and for `else`,
    which keeps the failed state. -/
def resetLogic (key : Bytes) (st : ConfigState σ) : ConfigState σ :=
  if key ∈ endNames then
    { st with logic_opt := none, logic_opt_arg := none, logic_opt_if_failed := false }
  else if key = lit "else" then { st with logic_opt := none, logic_opt_arg := none }
  else st

/-- `add_exported_option` while `logic_opt_running` is not set.  The argument is
    copied with `upsgi_str`, which reads it. -/
def add_exported_option (opt : ConfigOpt) (st : ConfigState σ) : Except Stop (ConfigState σ) :=
  if forbidden s opt.1 st.outside then .error .exit
  else
    let st := resetLogic opt.1 st
    match st.logic_opt, st.logic_opt_arg with
    | none, _ => exportOption s false opt st
    | some _, none => .error .crash
    | some logic, some data => logic.call s data opt st

/-- The options of a configuration, one after another. -/
def addOptions (opts : List ConfigOpt) (st : ConfigState σ) : Except Stop (ConfigState σ) :=
  opts.foldlM (fun st opt => add_exported_option s opt st) st

end Code

/-! ### Configurations made of plain options and blocks -/

/-- The option neither opens nor divides nor closes a block. -/
def IsPlain (key : Bytes) : Prop :=
  logicOption key = none ∧ key ∉ endNames

instance : DecidablePred IsPlain :=
  fun key => inferInstanceAs (Decidable (logicOption key = none ∧ key ∉ endNames))

structure PlainOpt where
  opt : ConfigOpt
  plain : IsPlain opt.1

/-- A conditional block.  The part behind `else` comes with the value of that
    line. -/
structure Block where
  key : Bytes
  cond : IfOpt
  opens : logicOption key = some (.cond cond)
  arg : Option Bytes
  then_part : List PlainOpt
  else_part : Option (Option Bytes × List PlainOpt)
  end_key : Bytes
  ends : end_key ∈ endNames
  end_value : Option Bytes

def optsOf (part : List PlainOpt) : List ConfigOpt :=
  part.map PlainOpt.opt

namespace Block

/-- The options behind `else`. -/
def elseOpts (b : Block) : List ConfigOpt :=
  match b.else_part with
  | none => []
  | some part => optsOf part.2

def elseLines (b : Block) : List ConfigOpt :=
  match b.else_part with
  | none => []
  | some part => (lit "else", part.1) :: optsOf part.2

def lines (b : Block) : List ConfigOpt :=
  (b.key, b.arg) :: (optsOf b.then_part ++ (b.elseLines ++ [(b.end_key, b.end_value)]))

end Block

inductive ConfigItem where
  | plain (opt : PlainOpt)
  | block (b : Block)

/-- A block with the state before it and what came of its lines. -/
structure BlockRun (σ : Type) where
  before : ConfigState σ
  block : Block
  result : Except Stop (ConfigState σ)

section Runs

variable {σ : Type} (s : Surroundings σ)

/-- The blocks of a configuration that the process came to. -/
def blockRuns : List ConfigItem → ConfigState σ → List (BlockRun σ)
  | [], _ => []
  | .plain o :: items, st =>
      match add_exported_option s o.opt st with
      | .error _ => []
      | .ok st' => blockRuns items st'
  | .block b :: items, st =>
      let result := addOptions s b.lines st
      ⟨st, b, result⟩ ::
        match result with
        | .error _ => []
        | .ok st' => blockRuns items st'

/-- The state behind the line that opens a block. -/
def Block.started (b : Block) (st : ConfigState σ) : ConfigState σ :=
  { st with
    logic_opt := some (.cond b.cond)
    logic_opt_arg := b.arg
    exported_opts := st.exported_opts ++ [(b.key, b.arg)]
    log := st.log ++ [(b.key, b.arg)] }

/-- The condition is true at the point where the block begins. -/
def BlockRun.holds (r : BlockRun σ) : Bool :=
  let st := r.block.started r.before
  (r.block.cond.test s (r.block.arg.getD []) st.exported_opts st.outside).1

/-- The option as it is exported from a block, with a text for `%(_)`. -/
def Substituted (opt : PlainOpt) (exported : ConfigOpt) : Prop :=
  exported.1 = opt.opt.1 ∧ ∃ text, upsgi_substitute opt.opt.2 (lit "%(_)") text = some exported.2

/-- What the lines between the first line of a block and the next line that is not
    plain have exported. -/
def thenExported (st st' : ConfigState σ) : List ConfigOpt :=
  (st'.log.drop (st.log.length + 1)).takeWhile fun opt => IsPlain opt.1

/-- What the plain options behind that line have exported. -/
def elseExported (st st' : ConfigState σ) : List ConfigOpt :=
  ((st'.log.drop (st.log.length + 1)).dropWhile fun opt => IsPlain opt.1).filter
    fun opt => IsPlain opt.1

/-- Exactly the part that the condition chose is exported, as a whole and in
    order. -/
def BlockRun.Right (r : BlockRun σ) : Prop :=
  ∃ st', r.result = .ok st' ∧
    if r.holds s then
      List.Forall₂ Substituted r.block.then_part (thenExported r.before st') ∧
        elseExported r.before st' = []
    else thenExported r.before st' = [] ∧ elseExported r.before st' = r.block.elseOpts

/-- Each option of the part finds the condition true, and has a value if there is a
    text for `%(_)`. -/
def StaysTrue (c : IfOpt) (data : Bytes) : List PlainOpt → ConfigState σ → Prop
  | [], _ => True
  | o :: part, st =>
      let test := c.test s data st.exported_opts st.outside
      test.1 = true ∧ upsgi_substitute o.opt.2 (lit "%(_)") test.2 ≠ none ∧
        ∀ st', add_exported_option s o.opt st = .ok st' → StaysTrue c data part st'

/-- The argument of the `else` line is there if an option reads it. -/
def Block.ElseArg (b : Block) : Prop :=
  b.elseOpts = [] ∨ ∀ part ∈ b.else_part, part.1 ≠ none

/-- No null pointer is read for an argument, a chosen first part leaves its
    condition true, and an `else` that is chosen has a first part before it. -/
def BlockRun.Sound (r : BlockRun σ) : Prop :=
  (r.block.then_part = [] ∨ r.block.arg ≠ none) ∧
    r.block.ElseArg ∧
    if r.holds s then
      StaysTrue s r.block.cond (r.block.arg.getD []) r.block.then_part
        (r.block.started r.before)
    else r.block.then_part ≠ [] ∨ r.block.elseOpts = []

end Runs

/-! ### The names of the options -/

variable {key : Bytes} {logic : LogicOpt}

theorem logicOption_mem (h : logicOption key = some logic) :
    (key, logic) ∈ logicOptions := by
  rw [logicOption, Option.map_eq_some_iff] at h
  obtain ⟨option, hfind, rfl⟩ := h
  have hkey : option.1 = key := by simpa using find?_some hfind
  exact hkey ▸ mem_of_find?_eq_some hfind

theorem opens_not_ends : ∀ option ∈ logicOptions, option.1 ∉ endNames := by
  decide +kernel

theorem ends_not_logic (h : key ∈ endNames) : logicOption key = none := by
  cases hlogic : logicOption key with
  | none => rfl
  | some logic => exact absurd h (opens_not_ends _ (logicOption_mem hlogic))

theorem logicOption_else : logicOption (lit "else") = some .else_opt := by
  decide +kernel

theorem IsPlain.ne_else (h : IsPlain key) : key ≠ lit "else" := by
  rintro rfl
  nomatch h.1.symm.trans logicOption_else

/-- No name of the logic has one byte. -/
theorem isPlain_single (c : UInt8) : IsPlain [c] := by
  have hlong : (∀ option ∈ logicOptions, option.1.length ≠ 1) ∧
      ∀ key ∈ endNames, key.length ≠ 1 := by
    decide +kernel
  refine ⟨?_, fun h => hlong.2 [c] h rfl⟩
  cases hlogic : logicOption [c] with
  | none => rfl
  | some logic => exact absurd rfl (hlong.1 _ (logicOption_mem hlogic))

/-! ### What the steps of a run do -/

/-- The result meets `P`, and a crash only happens if `crash`; nothing is said about
    a process that has called `exit(1)`. -/
def Ends {α : Type} (result : Except Stop α) (crash : Prop) (P : α → Prop) : Prop :=
  match result with
  | .ok a => P a
  | .error .exit => True
  | .error .crash => crash

section Steps

variable {α β : Type} {crash crash' : Prop} {P : α → Prop} {Q : β → Prop}

theorem Ends.bind {x : Except Stop α} {f : α → Except Stop β} (hx : Ends x crash P)
    (hf : ∀ a, x = .ok a → P a → Ends (f a) crash Q) : Ends (x >>= f) crash Q := by
  match x with
  | .ok a => exact hf a rfl hx
  | .error .exit => trivial
  | .error .crash => exact hx

theorem Ends.imp {x : Except Stop α} {P' : α → Prop} (hx : Ends x crash P)
    (hcrash : crash → crash') (hP : ∀ a, x = .ok a → P a → P' a) : Ends x crash' P' := by
  match x with
  | .ok a => exact hP a rfl hx
  | .error .exit => trivial
  | .error .crash => exact hcrash hx

end Steps

section Lines

variable {σ : Type} {s : Surroundings σ} {st st' : ConfigState σ} {opt : ConfigOpt}

theorem addOptions_cons (opts : List ConfigOpt) :
    addOptions s (opt :: opts) st = add_exported_option s opt st >>= addOptions s opts :=
  foldlM_cons

theorem addOptions_append (front back : List ConfigOpt) :
    addOptions s (front ++ back) st = addOptions s front st >>= addOptions s back :=
  foldlM_append

/-- One entry is new in the log, and the block goes on. -/
structure Exported (st : ConfigState σ) (opt : ConfigOpt) (st' : ConfigState σ) : Prop where
  logic_opt : st'.logic_opt = st.logic_opt
  logic_opt_arg : st'.logic_opt_arg = st.logic_opt_arg
  failed : st'.logic_opt_if_failed = st.logic_opt_if_failed
  log : st'.log = st.log ++ [opt]

theorem exportOption_ends (running : Bool) (h : logicOption opt.1 = none) :
    Ends (exportOption s running opt st) False (Exported st opt) := by
  simp only [exportOption, h]
  cases s.perform running opt (st.exported_opts ++ [opt], st.outside) with
  | none => trivial
  | some out => exact ⟨rfl, rfl, rfl, rfl⟩

theorem addRunning_ends (h : logicOption opt.1 = none) :
    Ends (addRunning s opt st) False (Exported st opt) := by
  unfold addRunning
  split
  · trivial
  · exact exportOption_ends true h

theorem IsPlain.resetLogic (h : IsPlain key) : resetLogic key st = st := by
  rw [Upsgi.resetLogic, if_neg h.2, if_neg h.ne_else]

/-- An option that no function takes is exported. -/
theorem free_line {P : ConfigState σ → Prop} {crash : Prop}
    (hidle : (resetLogic opt.1 st).logic_opt = none)
    (hexport : Ends (exportOption s false opt (resetLogic opt.1 st)) crash P) :
    Ends (add_exported_option s opt st) crash P := by
  unfold add_exported_option
  split
  · trivial
  · simpa only [hidle] using hexport

/-- A plain option outside of the blocks. -/
theorem plain_line (h : IsPlain opt.1) (hidle : st.logic_opt = none) :
    Ends (add_exported_option s opt st) False (Exported st opt) := by
  apply free_line
  · rw [h.resetLogic, hidle]
  · rw [h.resetLogic]
    exact exportOption_ends false h.1

/-- A plain option in a block goes to the function of the block. -/
theorem block_line {data : Bytes} {P : ConfigState σ → Prop} {crash : Prop} (h : IsPlain opt.1)
    (hlogic : st.logic_opt = some logic) (harg : st.logic_opt_arg = some data)
    (hcall : Ends (logic.call s data opt st) crash P) :
    Ends (add_exported_option s opt st) crash P := by
  unfold add_exported_option
  split
  · trivial
  · simpa only [h.resetLogic, hlogic, harg] using hcall

/-- A block without an argument does not get beyond its first option. -/
theorem no_argument (h : IsPlain opt.1) (hlogic : st.logic_opt = some logic)
    (harg : st.logic_opt_arg = none) :
    Ends (add_exported_option s opt st) True fun _ => False := by
  unfold add_exported_option
  split
  · trivial
  · simp only [h.resetLogic, hlogic, harg]
    trivial

end Lines

/-! ### The parts of a block -/

section Parts

variable {σ : Type} {s : Surroundings σ} {st : ConfigState σ} {c : IfOpt} {data : Bytes}

/-- The function of the block and its argument. -/
structure InBlock (logic : LogicOpt) (data : Bytes) (st : ConfigState σ) : Prop where
  logic_opt : st.logic_opt = some logic
  logic_opt_arg : st.logic_opt_arg = some data

/-- No block is open, and no evaluation is on record. -/
structure Idle (st : ConfigState σ) : Prop where
  logic_opt : st.logic_opt = none
  failed : st.logic_opt_if_failed = false

/-- An option that finds the condition true. -/
theorem taken_line (o : PlainOpt) (hin : InBlock (.cond c) data st)
    (htrue : (c.test s data st.exported_opts st.outside).1 = true) :
    Ends (add_exported_option s o.opt st)
      (upsgi_substitute o.opt.2 (lit "%(_)") (c.test s data st.exported_opts st.outside).2 = none)
      fun st' => ∃ value,
        upsgi_substitute o.opt.2 (lit "%(_)") (c.test s data st.exported_opts st.outside).2 =
            some value ∧
          Exported { st with logic_opt_if_failed := false } (o.opt.1, value) st' := by
  apply block_line o.plain hin.logic_opt hin.logic_opt_arg
  simp only [LogicOpt.call, logicIf, htrue, if_true]
  cases upsgi_substitute o.opt.2 (lit "%(_)") (c.test s data st.exported_opts st.outside).2 with
  | none => rfl
  | some value =>
    have hadd : Ends (addRunning s (o.opt.1, value) { st with logic_opt_if_failed := false }) False
        (Exported { st with logic_opt_if_failed := false } (o.opt.1, value)) :=
      addRunning_ends o.plain.1
    exact hadd.imp False.elim fun _ _ hexp => ⟨value, rfl, hexp⟩

/-- An option that finds the condition false leaves a note of it. -/
theorem skipped_line (o : PlainOpt) (hin : InBlock (.cond c) data st)
    (hfalse : (c.test s data st.exported_opts st.outside).1 = false) :
    Ends (add_exported_option s o.opt st) False
      fun st' => st' = { st with logic_opt_if_failed := true } := by
  apply block_line o.plain hin.logic_opt hin.logic_opt_arg
  simp only [LogicOpt.call, logicIf, hfalse, Bool.false_eq_true, if_false]
  exact rfl

/-- A condition that is false stays false: nothing is exported that could change
    it. -/
theorem skipped_part (part : List PlainOpt) (hin : InBlock (.cond c) data st)
    (hfalse : (c.test s data st.exported_opts st.outside).1 = false) :
    Ends (addOptions s (optsOf part) st) False fun st' =>
      st' = { st with logic_opt_if_failed := st.logic_opt_if_failed || !part.isEmpty } := by
  induction part generalizing st with
  | nil => simp only [isEmpty_nil, Bool.not_true, Bool.or_false]; exact rfl
  | cons o part ih =>
    refine (skipped_line o hin hfalse).bind ?_
    rintro _ - rfl
    have hin' : InBlock (.cond c) data { st with logic_opt_if_failed := true } :=
      ⟨hin.logic_opt, hin.logic_opt_arg⟩
    refine (ih hin' hfalse).imp id ?_
    rintro _ - rfl
    simp

/-- Either the whole part is exported, or fewer options than it has. -/
theorem then_part_ends (part : List PlainOpt) (hin : InBlock (.cond c) data st) :
    Ends (addOptions s (optsOf part) st) (¬StaysTrue s c data part st) fun st' =>
      ∃ out, st'.log = st.log ++ out ∧ (∀ opt ∈ out, IsPlain opt.1) ∧
        (StaysTrue s c data part st ∧ List.Forall₂ Substituted part out ∧
            st'.logic_opt_if_failed = (st.logic_opt_if_failed && part.isEmpty) ∨
          ¬StaysTrue s c data part st ∧ out.length < part.length) := by
  induction part generalizing st with
  | nil => exact ⟨[], by simp, by simp, .inl ⟨trivial, .nil, by simp⟩⟩
  | cons o part ih =>
    cases htest : (c.test s data st.exported_opts st.outside).1 with
    | false =>
      have hnot : ¬StaysTrue s c data (o :: part) st := fun h => by
        simpa [htest] using h.1
      refine (skipped_part (o :: part) hin htest).imp False.elim ?_
      rintro _ - rfl
      exact ⟨[], by simp, by simp, .inr ⟨hnot, by simp⟩⟩
    | true =>
      refine ((taken_line o hin htest).imp (fun hnull h => h.2.1 hnull) fun _ _ h => h).bind ?_
      rintro st₁ hst₁ ⟨value, hvalue, hexp⟩
      -- the first step is decided, so the rest of the part decides
      have hrest : StaysTrue s c data (o :: part) st ↔ StaysTrue s c data part st₁ := by
        refine ⟨fun h => h.2.2 st₁ hst₁, fun h => ⟨htest, by simp [hvalue], ?_⟩⟩
        intro st' hst'
        rw [hst₁, Except.ok.injEq] at hst'
        exact hst' ▸ h
      have hin₁ : InBlock (.cond c) data st₁ :=
        ⟨hexp.logic_opt.trans hin.logic_opt, hexp.logic_opt_arg.trans hin.logic_opt_arg⟩
      rw [hrest]
      refine (ih hin₁).imp id ?_
      rintro st' - ⟨out, hlog, hplain, hout⟩
      refine ⟨(o.opt.1, value) :: out, by simp [hlog, hexp.log], ?_, ?_⟩
      · simpa using ⟨o.plain, fun a b h => hplain (a, b) h⟩
      · rcases hout with ⟨hstays, hall, hfailed⟩ | ⟨hnot, hlt⟩
        · exact .inl ⟨hstays, .cons ⟨rfl, _, hvalue⟩ hall, by simp [hfailed, hexp.failed]⟩
        · exact .inr ⟨hnot, by simpa using hlt⟩

theorem else_part_ends (part : List PlainOpt) (hin : InBlock .else_opt data st) :
    Ends (addOptions s (optsOf part) st) False fun st' =>
      st'.log = st.log ++ if st.logic_opt_if_failed then optsOf part else [] := by
  induction part generalizing st with
  | nil => simp [optsOf, addOptions, Ends, pure, Except.pure]
  | cons o part ih =>
    have hline : Ends (add_exported_option s o.opt st) False fun st' =>
        InBlock .else_opt data st' ∧ st'.logic_opt_if_failed = st.logic_opt_if_failed ∧
          st'.log = st.log ++ if st.logic_opt_if_failed then [o.opt] else [] := by
      apply block_line o.plain hin.logic_opt hin.logic_opt_arg
      simp only [LogicOpt.call, upsgi_logic_opt_else]
      cases hfailed : st.logic_opt_if_failed with
      | false => simpa [Ends, hfailed] using hin
      | true =>
        refine (addRunning_ends o.plain.1).imp id ?_
        intro st' _ hexp
        exact ⟨⟨hexp.logic_opt.trans hin.logic_opt, hexp.logic_opt_arg.trans hin.logic_opt_arg⟩,
          hexp.failed.trans hfailed, hexp.log⟩
    refine hline.bind ?_
    rintro st₁ - ⟨hin₁, hfailed, hlog⟩
    refine (ih hin₁).imp id ?_
    intro st' _ hlog'
    rw [hlog', hlog, hfailed]
    cases st.logic_opt_if_failed <;> simp [optsOf]

end Parts

/-! ### Blocks -/

section Blocks

variable {σ : Type} {s : Surroundings σ} {st : ConfigState σ}

/-- The line that opens a block. -/
theorem open_line (b : Block) (hidle : Idle st) :
    Ends (add_exported_option s (b.key, b.arg) st) False fun st' => st' = b.started st := by
  have hend : b.key ∉ endNames := opens_not_ends _ (logicOption_mem b.opens)
  have helse : b.key ≠ lit "else" := by
    intro h
    have hopens := b.opens
    rw [h, logicOption_else] at hopens
    nomatch hopens
  have hreset : resetLogic b.key st = st := by rw [resetLogic, if_neg hend, if_neg helse]
  apply free_line
  · rw [hreset, hidle.logic_opt]
  · simp only [hreset, exportOption, b.opens, upsgi_opt_logic, hidle.logic_opt,
      Option.isSome_none, Bool.false_eq_true, if_false]
    exact rfl

theorem else_line (value : Option Bytes) :
    Ends (add_exported_option s (lit "else", value) st) False fun st' =>
      st'.logic_opt = some .else_opt ∧ st'.logic_opt_arg = value ∧
        st'.logic_opt_if_failed = st.logic_opt_if_failed ∧
        st'.log = st.log ++ [(lit "else", value)] := by
  have hend : lit "else" ∉ endNames := opens_not_ends _ (logicOption_mem logicOption_else)
  have hreset : resetLogic (lit "else") st = { st with logic_opt := none, logic_opt_arg := none } :=
    (if_neg hend).trans (if_pos rfl)
  apply free_line
  · rw [hreset]
  · simp only [hreset, exportOption, logicOption_else, upsgi_opt_logic, Option.isSome_none,
      Bool.false_eq_true, if_false]
    exact ⟨rfl, rfl, rfl, rfl⟩

theorem end_line (h : key ∈ endNames) (value : Option Bytes) :
    Ends (add_exported_option s (key, value) st) False fun st' =>
      Idle st' ∧ st'.log = st.log ++ [(key, value)] := by
  apply free_line
  · rw [resetLogic, if_pos h]
  · rw [resetLogic, if_pos h]
    exact (exportOption_ends false (ends_not_logic h)).imp id fun _ _ hexp =>
      ⟨⟨hexp.logic_opt, hexp.failed⟩, hexp.log⟩

theorem filter_plain_optsOf (part : List PlainOpt) :
    (optsOf part).filter (fun opt => IsPlain opt.1) = optsOf part := by
  refine filter_eq_self.mpr fun opt hopt => ?_
  obtain ⟨o, -, rfl⟩ := mem_map.mp hopt
  exact decide_eq_true o.plain

/-- The options behind the `else` line. -/
theorem else_opts_end (value : Option Bytes) (part : List PlainOpt)
    (hlogic : st.logic_opt = some .else_opt) (harg : st.logic_opt_arg = value) :
    Ends (addOptions s (optsOf part) st) (¬(optsOf part = [] ∨ value ≠ none)) fun st' =>
      (optsOf part = [] ∨ value ≠ none) ∧
        st'.log = st.log ++ if st.logic_opt_if_failed then optsOf part else [] := by
  cases part with
  | nil => exact ⟨.inl rfl, by simp [optsOf]⟩
  | cons o part =>
    cases value with
    | none =>
      rw [optsOf, map_cons, addOptions_cons]
      exact ((no_argument o.plain hlogic harg).imp (fun _ => by simp) fun _ _ h => h).bind
        fun _ _ h => h.elim
    | some data =>
      exact (else_part_ends (o :: part) ⟨hlogic, harg⟩).imp False.elim fun _ _ hlog =>
        ⟨.inr (by simp), hlog⟩

/-- The lines of a block from `else` on, or from its end if there is none. -/
theorem rest_ends (b : Block) :
    Ends (addOptions s (b.elseLines ++ [(b.end_key, b.end_value)]) st) (¬b.ElseArg) fun st' =>
      Idle st' ∧ b.ElseArg ∧ ∃ mark rest, ¬IsPlain mark.1 ∧ st'.log = st.log ++ mark :: rest ∧
        (mark :: rest).filter (fun opt => IsPlain opt.1) =
          if st.logic_opt_if_failed then b.elseOpts else [] := by
  have hmark : ¬IsPlain b.end_key := fun h => h.2 b.ends
  have hfilter : [(b.end_key, b.end_value)].filter (fun opt => IsPlain opt.1) = [] := by
    simp [hmark]
  have hend (st : ConfigState σ) :
      Ends (addOptions s [(b.end_key, b.end_value)] st) False fun st' =>
        Idle st' ∧ st'.log = st.log ++ [(b.end_key, b.end_value)] := by
    exact (end_line b.ends b.end_value).bind fun _ _ h => h
  cases helse : b.else_part with
  | none =>
    have hopts : b.elseOpts = [] := by rw [Block.elseOpts, helse]
    rw [Block.elseLines, helse, nil_append]
    refine (hend st).imp False.elim ?_
    rintro st' - ⟨hidle, hlog⟩
    exact ⟨hidle, .inl hopts, _, [], hmark, hlog, by rw [hfilter, hopts, ite_self]⟩
  | some part =>
    obtain ⟨value, part⟩ := part
    have hopts : b.elseOpts = optsOf part := by rw [Block.elseOpts, helse]
    have harg : b.ElseArg ↔ optsOf part = [] ∨ value ≠ none := by
      rw [Block.ElseArg, hopts, helse]
      simp
    rw [Block.elseLines, helse, cons_append, addOptions_cons, harg, hopts]
    refine ((else_line value).imp False.elim fun _ _ h => h).bind ?_
    rintro st₁ - ⟨hlogic, harg₁, hfailed, hlog₁⟩
    rw [addOptions_append]
    refine (else_opts_end value part hlogic harg₁).bind ?_
    rintro st₂ - ⟨hvalue, hlog₂⟩
    refine (hend st₂).imp False.elim ?_
    rintro st' - ⟨hidle, hlog⟩
    have hplain : ¬IsPlain (lit "else") := fun h => h.ne_else rfl
    refine ⟨hidle, hvalue, (lit "else", value),
      (if st.logic_opt_if_failed then optsOf part else []) ++ [(b.end_key, b.end_value)],
      hplain, by simp [hlog, hlog₂, hlog₁, hfailed], ?_⟩
    rw [filter_cons_of_neg (by simpa using hplain), filter_append, hfilter, append_nil]
    cases st.logic_opt_if_failed with
    | false => rfl
    | true => exact filter_plain_optsOf part

/-- The first part of a block was taken as far as the options in `out`. -/
structure ThenOutcome (s : Surroundings σ) (r : BlockRun σ) (out : List ConfigOpt)
    (failed : Bool) : Prop where
  arg : r.block.then_part = [] ∨ r.block.arg ≠ none
  plain : ∀ opt ∈ out, IsPlain opt.1
  skipped : r.holds s = false → out = [] ∧ failed = !r.block.then_part.isEmpty
  taken : r.holds s = true →
    StaysTrue s r.block.cond (r.block.arg.getD []) r.block.then_part
        (r.block.started r.before) ∧
        List.Forall₂ Substituted r.block.then_part out ∧ failed = false ∨
      ¬StaysTrue s r.block.cond (r.block.arg.getD []) r.block.then_part
        (r.block.started r.before) ∧ out.length < r.block.then_part.length

theorem then_ends (r : BlockRun σ) (hidle : Idle r.before) :
    Ends (addOptions s (optsOf r.block.then_part) (r.block.started r.before)) (¬r.Sound s)
      fun st' => ∃ out, st'.log = (r.block.started r.before).log ++ out ∧
        ThenOutcome s r out st'.logic_opt_if_failed := by
  have hfailed : (r.block.started r.before).logic_opt_if_failed = false := hidle.failed
  cases harg : r.block.arg with
  | none =>
    cases hpart : r.block.then_part with
    | nil =>
      -- there is nothing to take, and the argument is not read
      refine ⟨[], by simp, .inl hpart, by simp, fun _ => ⟨rfl, by simp [hpart, hfailed]⟩, ?_⟩
      intro _
      rw [hpart]
      exact .inl ⟨trivial, .nil, hfailed⟩
    | cons o part =>
      have hsound : ¬r.Sound s := fun h => by simpa [hpart, harg] using h.1
      exact ((no_argument o.plain rfl harg).imp (fun _ => hsound) fun _ _ h => h).bind
        fun _ _ h => h.elim
  | some data =>
    have hin : InBlock (.cond r.block.cond) data (r.block.started r.before) := ⟨rfl, harg⟩
    have hdata : r.block.arg.getD [] = data := by rw [harg, Option.getD_some]
    have hnull : r.block.then_part = [] ∨ r.block.arg ≠ none := .inr (by simp [harg])
    cases hholds : r.holds s with
    | false =>
      have hfalse : (r.block.cond.test s data (r.block.started r.before).exported_opts
          (r.block.started r.before).outside).1 = false := by
        rw [← hdata]
        exact hholds
      refine (skipped_part r.block.then_part hin hfalse).imp False.elim ?_
      rintro _ - rfl
      refine ⟨[], by simp, hnull, by simp, fun _ => ⟨rfl, by simp [hfailed]⟩, ?_⟩
      intro htrue
      nomatch hholds.symm.trans htrue
    | true =>
      refine (then_part_ends r.block.then_part hin).imp (fun hnot hsound => hnot ?_) ?_
      · have hstays := hsound.2.2
        rwa [if_pos hholds, hdata] at hstays
      · rintro st' - ⟨out, hlog, hplain, hout⟩
        refine ⟨out, hlog, hnull, hplain, ?_, fun _ => ?_⟩
        · intro hfalse
          nomatch hholds.symm.trans hfalse
        · simpa [hdata, hfailed] using hout

/-- A list of plain options, cut at the first line that is not one. -/
theorem exported_of_log {st st' : ConfigState σ} {first mark : ConfigOpt}
    {out rest : List ConfigOpt} (hlog : st'.log = st.log ++ [first] ++ out ++ mark :: rest)
    (hplain : ∀ opt ∈ out, IsPlain opt.1) (hmark : ¬IsPlain mark.1) :
    thenExported st st' = out ∧
      elseExported st st' = (mark :: rest).filter fun opt => IsPlain opt.1 := by
  have hdrop : st'.log.drop (st.log.length + 1) = out ++ mark :: rest := by
    rw [hlog, append_assoc, drop_left' (by simp)]
  have hout : ∀ opt ∈ out, decide (IsPlain opt.1) = true := fun opt h =>
    decide_eq_true (hplain opt h)
  rw [thenExported, elseExported, hdrop, takeWhile_append_of_pos hout,
    takeWhile_cons_of_neg (by simpa using hmark), append_nil,
    dropWhile_append_of_pos hout, dropWhile_cons_of_neg (by simpa using hmark)]
  exact ⟨rfl, rfl⟩

/-- What is exported from a block, given what its first part has come to. -/
theorem ThenOutcome.right_iff {r : BlockRun σ} {st' : ConfigState σ} {out : List ConfigOpt}
    {failed : Bool} (h : ThenOutcome s r out failed) (helse : r.block.ElseArg)
    (hresult : r.result = .ok st') (hthen : thenExported r.before st' = out)
    (helseOut : elseExported r.before st' = if failed then r.block.elseOpts else []) :
    r.Right s ↔ r.Sound s := by
  have hsound : r.Sound s ↔
      if r.holds s then
        StaysTrue s r.block.cond (r.block.arg.getD []) r.block.then_part
          (r.block.started r.before)
      else r.block.then_part ≠ [] ∨ r.block.elseOpts = [] :=
    ⟨fun h => h.2.2, fun hcond => ⟨h.arg, helse, hcond⟩⟩
  have hright : r.Right s ↔
      if r.holds s then
        List.Forall₂ Substituted r.block.then_part out ∧
          (if failed then r.block.elseOpts else []) = []
      else out = [] ∧ (if failed then r.block.elseOpts else []) = r.block.elseOpts := by
    simp only [BlockRun.Right, hresult, Except.ok.injEq, exists_eq_left', hthen, helseOut]
  rw [hsound, hright]
  cases hholds : r.holds s with
  | false =>
    obtain ⟨rfl, rfl⟩ := h.skipped hholds
    simp only [Bool.false_eq_true, if_false, true_and]
    -- without a first part the failure was never noted
    cases hpart : r.block.then_part with
    | nil =>
      simp only [isEmpty_nil, Bool.not_true, Bool.false_eq_true, if_false, ne_eq,
        not_true_eq_false, false_or]
      exact eq_comm
    | cons o part => simp
  | true =>
    rcases h.taken hholds with ⟨hstays, hall, rfl⟩ | ⟨hnot, hlt⟩
    · exact ⟨fun _ => hstays, fun _ => ⟨hall, rfl⟩⟩
    · exact ⟨fun hright => absurd hright.1.length_eq (Nat.ne_of_gt hlt), fun h => absurd h hnot⟩

/-- A block that is met with no block open. -/
theorem block_ends (b : Block) (hidle : Idle st) :
    Ends (addOptions s b.lines st) (¬(⟨st, b, addOptions s b.lines st⟩ : BlockRun σ).Sound s)
      fun st' => Idle st' ∧
        ((⟨st, b, addOptions s b.lines st⟩ : BlockRun σ).Right s ↔
          (⟨st, b, addOptions s b.lines st⟩ : BlockRun σ).Sound s) := by
  set r : BlockRun σ := ⟨st, b, addOptions s b.lines st⟩
  have hlines : Ends (addOptions s b.lines st) (¬r.Sound s) fun st' =>
      Idle st' ∧ b.ElseArg ∧ ∃ out failed mark rest, ThenOutcome s r out failed ∧
        ¬IsPlain mark.1 ∧ st'.log = st.log ++ [(b.key, b.arg)] ++ out ++ mark :: rest ∧
        (mark :: rest).filter (fun opt => IsPlain opt.1) = if failed then b.elseOpts else [] := by
    rw [Block.lines, addOptions_cons]
    refine ((open_line b hidle).imp False.elim fun _ _ h => h).bind ?_
    rintro _ - rfl
    rw [addOptions_append]
    refine (then_ends r hidle).bind ?_
    rintro st₁ - ⟨out, hlog₁, hout⟩
    refine (rest_ends b).imp (fun hnot hsound => hnot hsound.2.1) ?_
    rintro st' - ⟨hidle', helse, mark, rest, hmark, hlog, hfilter⟩
    exact ⟨hidle', helse, out, _, mark, rest, hout, hmark, by rw [hlog, hlog₁]; rfl, hfilter⟩
  refine hlines.imp id ?_
  rintro st' hresult ⟨hidle', helse, out, failed, mark, rest, hout, hmark, hlog, hfilter⟩
  obtain ⟨hthen, helseOut⟩ := exported_of_log hlog hout.plain hmark
  exact ⟨hidle', hout.right_iff helse hresult hthen (helseOut.trans hfilter)⟩

end Blocks

/-! ### Configurations -/

section Configurations

variable {σ : Type} (s : Surroundings σ)

/-- The same from any point of a configuration where no block is open. -/
theorem blockRuns_right_iff (items : List ConfigItem) {st : ConfigState σ} (hidle : Idle st) :
    ∀ r ∈ blockRuns s items st, r.result ≠ .error .exit → (r.Right s ↔ r.Sound s) := by
  induction items generalizing st with
  | nil => intro r hr; cases hr
  | cons item items ih =>
    cases item with
    | plain o =>
      have hline := @plain_line σ s st o.opt o.plain hidle.logic_opt
      rw [blockRuns]
      cases hadd : add_exported_option s o.opt st with
      | error stop => intro r hr; cases hr
      | ok st' =>
        rw [hadd] at hline
        exact ih ⟨hline.logic_opt.trans hidle.logic_opt, hline.failed.trans hidle.failed⟩
    | block b =>
      have hblock := @block_ends σ s st b hidle
      intro r hr hexit
      rcases mem_cons.mp hr with rfl | hr
      · -- this block
        cases hadd : addOptions s b.lines st with
        | ok st' =>
          rw [hadd] at hblock
          exact hblock.2
        | error stop =>
          cases stop with
          | exit => exact absurd hadd hexit
          | crash =>
            rw [hadd] at hblock
            refine ⟨?_, fun hsound => absurd hsound hblock⟩
            rintro ⟨st', hst', -⟩
            cases hst'
      · -- a later one
        cases hadd : addOptions s b.lines st with
        | ok st' =>
          rw [hadd] at hblock
          simp only [hadd] at hr
          exact ih hblock.1 r hr hexit
        | error stop =>
          simp only [hadd] at hr
          cases hr

/-- In every configuration made of plain options and blocks, exactly the chosen part
    of a block is exported if and only if the block is sound. -/
theorem block_exports_chosen_part_iff (items : List ConfigItem) (outside : σ) :
    ∀ r ∈ blockRuns s items (.start outside),
      r.result ≠ .error .exit → (r.Right s ↔ r.Sound s) :=
  blockRuns_right_iff s items ⟨rfl, rfl⟩

end Configurations

/-- Nothing is forbidden, set or found, and no option does anything. -/
def bareSurroundings : Surroundings Unit where
  blacklist _ := []
  whitelist _ := []
  blacklist_context _ := none
  whitelist_context _ := none
  getenv _ _ := none
  upsgi_file_exists _ _ := false
  upsgi_is_file _ _ := false
  upsgi_is_dir _ _ := false
  plugin_already_loaded _ _ := false
  hostname _ := []
  upsgi_regexp_match_pattern _ _ _ := false
  is_a_reload _ := false
  cycleStrings _ _ _ := []
  perform _ _ out := some out

def plainA : PlainOpt := ⟨(lit "a", some (lit "1")), isPlain_single 97⟩
def plainB : PlainOpt := ⟨(lit "b", some (lit "2")), isPlain_single 98⟩
def plainC : PlainOpt := ⟨(lit "c", some (lit "3")), isPlain_single 99⟩

/-- A block on the option `a`, with `c` behind `else`. -/
def blockNotA (then_part : List PlainOpt) : Block where
  key := lit "if-not-opt"
  cond := .if_not_opt
  opens := by decide +kernel
  arg := some (lit "a")
  then_part := then_part
  else_part := some (some [], [plainC])
  end_key := lit "end"
  ends := by decide +kernel
  end_value := some []

/-- The run of that block from a state. -/
def runNotA (before : ConfigState Unit) (then_part : List PlainOpt) : BlockRun Unit :=
  ⟨before, blockNotA then_part, addOptions bareSurroundings (blockNotA then_part).lines before⟩

/-- The state behind the option `a`. -/
def afterA : ConfigState Unit :=
  ⟨none, none, false, [plainA.opt], (), [plainA.opt]⟩

theorem block_exports_chosen_part_b :
    (runNotA (.start ()) [plainB]).result ≠ .error .exit ∧
      (runNotA (.start ()) [plainB]).Right bareSurroundings := by
  have hexit : (runNotA (.start ()) [plainB]).result ≠ .error .exit := fun h =>
    absurd (congrArg Except.isOk h) (by decide +kernel)
  have hholds : (runNotA (.start ()) [plainB]).holds bareSurroundings = true := by decide +kernel
  refine ⟨hexit, (block_exports_chosen_part_iff bareSurroundings [.block (blockNotA [plainB])] ()
    (runNotA (.start ()) [plainB]) mem_cons_self hexit).mpr ⟨.inr nofun, .inr ?_, ?_⟩⟩
  · rintro _ ⟨⟩
    nofun
  · exact ⟨hholds, by decide +kernel, fun _ _ => trivial⟩

/-- With `a` in the first part, `a` makes the condition false for `b`, and `c` is
    exported as well; with an empty first part, nothing is exported. -/
theorem block_exports_wrong_parts :
    ((runNotA (.start ()) [plainA, plainB] ∈
        blockRuns bareSurroundings [.block (blockNotA [plainA, plainB])] (.start ())) ∧
      (runNotA (.start ()) [plainA, plainB]).holds bareSurroundings = true ∧
      (∃ st', (runNotA (.start ()) [plainA, plainB]).result = .ok st' ∧
        thenExported (.start ()) st' = [plainA.opt] ∧
        elseExported (.start ()) st' = [plainC.opt]) ∧
      ¬(runNotA (.start ()) [plainA, plainB]).Right bareSurroundings) ∧
    ((runNotA afterA [] ∈
        blockRuns bareSurroundings [.plain plainA, .block (blockNotA [])] (.start ())) ∧
      (runNotA afterA []).holds bareSurroundings = false ∧
      (∃ st', (runNotA afterA []).result = .ok st' ∧
        thenExported afterA st' = [] ∧ elseExported afterA st' = []) ∧
      ¬(runNotA afterA []).Right bareSurroundings) := by
  have hboth : ∃ st', (runNotA (.start ()) [plainA, plainB]).result = .ok st' ∧
      thenExported (.start ()) st' = [plainA.opt] ∧
      elseExported (.start ()) st' = [plainC.opt] :=
    ⟨_, rfl, by decide +kernel⟩
  have hnone : ∃ st', (runNotA afterA []).result = .ok st' ∧
      thenExported afterA st' = [] ∧ elseExported afterA st' = [] :=
    ⟨_, rfl, by decide +kernel⟩
  have hholds : (runNotA (.start ()) [plainA, plainB]).holds bareSurroundings = true := by
    decide +kernel
  have hfalse : (runNotA afterA []).holds bareSurroundings = false := by decide +kernel
  refine ⟨⟨mem_cons_self, hholds, hboth, ?_⟩, ⟨mem_cons_self, hfalse, hnone, ?_⟩⟩
  · rintro ⟨st, hst, hright⟩
    obtain ⟨st', hst', hthen, -⟩ := hboth
    obtain rfl := Except.ok.inj (hst.symm.trans hst')
    exact absurd (hright.1.length_eq.trans (congrArg List.length hthen)) (by decide +kernel)
  · rintro ⟨st, hst, hright⟩
    obtain ⟨st', hst', -, helse⟩ := hnone
    obtain rfl := Except.ok.inj (hst.symm.trans hst')
    exact absurd (hright.2.symm.trans helse) (by decide +kernel)

end Upsgi
