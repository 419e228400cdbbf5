import MyRedis.Config.Format
import MyRedis.Server.Basic

/-!
# Starting the server

What `main` of `server/main.cpp` does before the event loop: it goes through its arguments twice,
first for configuration files and then for a port, loads the dump file into an empty database and
makes the server.

`settings_of_main` says what the arguments and files amount to: the files named behind `--config`
count as one long file, in the order of the arguments, and the last other argument that is a port
takes precedence over the files.  Every list of arguments consists of such names and others
(`exists_arguments`).
-/

namespace MyRedis

open Foundation Config

/-! ### Arguments -/

/-- `std::atoi`: the number at the front of the text, or zero, brought into the range of `long` and
cut down to `int`. -/
def atoi (s : Bytes) : Int32 :=
  match strtol s with
  | none => 0
  | some n => Int32.ofInt (max (-2 ^ 63) (min n (2 ^ 63 - 1)))

namespace Main

/-- The option that names a configuration file. -/
def configFlag : Bytes := ascii "--config"

/-- The first loop over the arguments: the named files are loaded.  An option without a name behind
it is passed over. -/
def loadConfigs (files : Bytes → Option Bytes) : List Bytes → Config → Config
  | [], config => config
  | [_], config => config
  | arg :: next :: args, config =>
    if arg = configFlag then loadConfigs files args (config.loadFile (files next)).2
    else loadConfigs files (next :: args) config

/-- An argument that is taken for a port. -/
def isPort (p : Int32) : Bool := decide (0 < p) && decide (p ≤ 65535)

/-- One argument in the second loop. -/
def portArgument (port : Int32) (arg : Bytes) : Int32 :=
  if isPort (atoi arg) then atoi arg else port

/-- The second loop over the arguments: the options are skipped with their names, other arguments
may set the port. -/
def portArguments : List Bytes → Int32 → Int32
  | [], port => port
  | [arg], port => if arg = configFlag then port else portArgument port arg
  | arg :: next :: args, port =>
    if arg = configFlag then portArguments args port
    else portArguments (next :: args) (portArgument port arg)

/-- What `main` gives to the server. -/
structure Settings where
  /-- The configuration after all files. -/
  config : Config
  /-- The address. -/
  bindAddr : Bytes
  /-- The port. -/
  port : Int32
  /-- The password. -/
  password : Bytes

/-- The settings for given files and arguments. -/
def settings (files : Bytes → Option Bytes) (args : List Bytes) : Settings :=
  let config := loadConfigs files args Config.new
  { config := config
    bindAddr := config.bindAddr
    port := portArguments args config.port
    password := config.password }

/-! ### What the arguments amount to -/

/-- The arguments consist of options that name files, and of other arguments; an option at the end
has no name. -/
inductive Arguments : List Bytes → List Bytes → List Bytes → Prop
  | nil : Arguments [] [] []
  | dangling : Arguments [configFlag] [] []
  | config {args names others : List Bytes} (name : Bytes) (h : Arguments args names others) :
      Arguments (configFlag :: name :: args) (name :: names) others
  | other {args names others : List Bytes} {arg : Bytes} (harg : arg ≠ configFlag)
      (h : Arguments args names others) : Arguments (arg :: args) names (arg :: others)

/-- Every list of arguments is of this form. -/
theorem exists_arguments : ∀ args : List Bytes, ∃ names others, Arguments args names others
  | [] => ⟨[], [], .nil⟩
  | [arg] => by
    by_cases harg : arg = configFlag
    · rw [harg]
      exact ⟨[], [], .dangling⟩
    · exact ⟨[], [arg], .other harg .nil⟩
  | arg :: next :: args => by
    by_cases harg : arg = configFlag
    · obtain ⟨names, others, h⟩ := exists_arguments args
      rw [harg]
      exact ⟨next :: names, others, .config next h⟩
    · obtain ⟨names, others, h⟩ := exists_arguments (next :: args)
      exact ⟨names, arg :: others, .other harg h⟩

/-- The lines of the named files, one file after the other; files that cannot be opened have
none. -/
def fileLines (files : Bytes → Option Bytes) (names : List Bytes) : List Bytes :=
  names.flatMap fun name => ((files name).map getLines).getD []

variable {args names others : List Bytes}

/-- The first loop reads the lines of the named files. -/
theorem loadConfigs_eq (files : Bytes → Option Bytes) (h : Arguments args names others)
    (config : Config) :
    loadConfigs files args config = (fileLines files names).foldl loadLine config := by
  induction h generalizing config with
  | nil => rfl
  | dangling => rfl
  | @config args names others name h ih =>
    rw [loadConfigs, if_pos rfl, ih]
    unfold fileLines
    rw [List.flatMap_cons, List.foldl_append]
    congr 1
    cases files name <;> rfl
  | @other args names others arg harg h ih =>
    rcases args with _ | ⟨next, args⟩
    · rw [← ih]
      rfl
    · rw [loadConfigs, if_neg harg, ih]

/-- The second loop looks at the other arguments. -/
theorem portArguments_eq (h : Arguments args names others) (port : Int32) :
    portArguments args port = others.foldl portArgument port := by
  induction h generalizing port with
  | nil => rfl
  | dangling => rfl
  | @config args names others name h ih => rw [portArguments, if_pos rfl, ih]
  | @other args names others arg harg h ih =>
    rcases args with _ | ⟨next, args⟩
    · rw [portArguments, if_neg harg, List.foldl_cons, ← ih]
      rfl
    · rw [portArguments, if_neg harg, ih, List.foldl_cons]

/-- The last port among the arguments counts. -/
theorem foldl_portArgument (others : List Bytes) (port : Int32) :
    others.foldl portArgument port =
      (((others.map atoi).filter isPort).getLast?).getD port := by
  induction others using List.reverseRecOn with
  | nil => rfl
  | append_singleton others arg ih =>
    rw [List.foldl_append, List.foldl_cons, List.foldl_nil, ih, List.map_append, List.filter_append,
      portArgument]
    cases hport : isPort (atoi arg) with
    | true => simp [hport]
    | false => simp [hport]

/-- No line of the files holds a line feed. -/
theorem notMem_of_mem_fileLines {files : Bytes → Option Bytes} {line : Bytes}
    (h : line ∈ fileLines files names) : LF ∉ line := by
  obtain ⟨name, -, hline⟩ := List.mem_flatMap.mp h
  cases hfile : files name with
  | none =>
    rw [hfile] at hline
    cases hline
  | some text =>
    rw [hfile] at hline
    exact notMem_of_mem_getLines hline

/-- What the settings should be, for the lines of the named files and the other arguments. -/
structure Settings.Follow (s : Settings) (lines others : List Bytes) : Prop where
  /-- A name is set by the last line that sets it, and has its default if there is none. -/
  get_eq_iff : ∀ key value, s.config.get key = value ↔
    LastAssigns lines key value ∨ NoneAssigns lines key ∧ Config.new.get key = value
  /-- The port is the last argument that is a port, and otherwise that of the configuration. -/
  port_eq : s.port = (((others.map atoi).filter isPort).getLast?).getD s.config.port
  /-- The address is the one that is set. -/
  bindAddr_eq : ∀ addr, addr ≠ [] → LastAssigns lines (ascii "bind") addr → s.bindAddr = addr
  /-- It is that of all interfaces if none is set, or the empty one. -/
  bindAddr_default : NoneAssigns lines (ascii "bind") ∨ LastAssigns lines (ascii "bind") [] →
    s.bindAddr = ascii "0.0.0.0"
  /-- The password is the one that is set, and otherwise empty. -/
  password_eq_iff : ∀ value, s.password = value ↔ LastAssigns lines (ascii "requirepass") value ∨
    NoneAssigns lines (ascii "requirepass") ∧ value = []

/-- **The settings of the server.**  The arguments consist of options that name files and of others,
and whatever they are, a name is set by the last line that sets it in the files named behind
`--config`, taken one after the other, and has its default if there is none; the port is the last
other argument that is a port, and otherwise that of the configuration. -/
theorem settings_of_main (files : Bytes → Option Bytes) (args : List Bytes) :
    (∃ names others, Arguments args names others) ∧
      ∀ names others, Arguments args names others →
        (settings files args).Follow (fileLines files names) others := by
  refine ⟨exists_arguments args, fun names others h => ?_⟩
  have hget (key value : Bytes) : (settings files args).config.get key = value ↔
      LastAssigns (fileLines files names) key value ∨
        NoneAssigns (fileLines files names) key ∧ Config.new.get key = value := by
    change (loadConfigs files args Config.new).get key = value ↔ _
    rw [loadConfigs_eq files h]
    exact get_foldl_loadLine_eq_iff _ fun line hline => notMem_of_mem_fileLines hline
  have hbind : (settings files args).bindAddr =
      if (settings files args).config.get (ascii "bind") = [] then ascii "0.0.0.0"
      else (settings files args).config.get (ascii "bind") := rfl
  constructor
  · exact hget
  · change portArguments args (loadConfigs files args Config.new).port = _
    rw [portArguments_eq h, foldl_portArgument]
    rfl
  · intro addr hne hlast
    rw [hbind, (hget _ _).mpr (Or.inl hlast), if_neg hne]
  · rintro (hnone | hlast)
    · rw [hbind, (hget _ (ascii "0.0.0.0")).mpr (Or.inr ⟨hnone, by decide +kernel⟩)]
      rfl
    · rw [hbind, (hget _ _).mpr (Or.inl hlast), if_pos rfl]
  · intro value
    have hdefault : Config.new.get (ascii "requirepass") = [] := by decide +kernel
    refine (hget _ value).trans ?_
    rw [hdefault, eq_comm (a := [])]

/-- Two files, of which the second does not exist, a port, and an option without a name. -/
theorem settings_of_main_two_files :
    let files : Bytes → Option Bytes := fun name =>
      if name = ascii "a.conf" then some (ascii "port 7000\nrequirepass x\nport none\nbind")
      else none
    let args := [configFlag, ascii "a.conf", ascii "x7", ascii "80", configFlag, ascii "b.conf",
      configFlag]
    Arguments args [ascii "a.conf", ascii "b.conf"] [ascii "x7", ascii "80"] ∧
      (settings files args).port = 80 ∧ (settings files args).password = ascii "x" ∧
      (settings files args).bindAddr = ascii "0.0.0.0" ∧
      LastAssigns (fileLines files [ascii "a.conf", ascii "b.conf"]) (ascii "port")
        (ascii "none") := by
  intro files args
  have hargs : Arguments args [ascii "a.conf", ascii "b.conf"] [ascii "x7", ascii "80"] :=
    .config _ (.other (by decide +kernel) (.other (by decide +kernel) (.config _ .dangling)))
  have hfollow := (settings_of_main files args).2 _ _ hargs
  have hlast : (settings files args).config.get (ascii "port") = ascii "none" := by decide +kernel
  refine ⟨hargs, ?_, by decide +kernel, by decide +kernel, ?_⟩
  · rw [hfollow.port_eq]
    decide +kernel
  · rcases (hfollow.get_eq_iff _ _).mp hlast with h | ⟨-, hdefault⟩
    · exact h
    · exact absurd hdefault (by decide +kernel)

end Main

end MyRedis
