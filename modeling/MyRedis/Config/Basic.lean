import MyRedis.Database.Basic
import MyRedis.Foundation.TextLines
import MyRedis.Resp.Serialize

/-!
# The configuration

The class `Config` of `config.h` and `config.cpp`: a map from names to texts that starts with the
defaults, is overwritten by the lines of configuration files, and is asked for the port, the
address and the password.

`load_file` is a function of what the opened file delivers.  A line is trimmed with a set of four
blanks while its first word is read with `>>`, which also skips `\v` and `\f`; the model keeps the
two sets apart.
-/

namespace MyRedis

open Foundation Resp

/-- The configuration: the texts that are set. -/
structure Config where
  /-- The map `config_`. -/
  config : UnorderedMap Bytes Bytes

namespace Config

/-- `set`. -/
def set (c : Config) (key value : Bytes) : Config := ⟨c.config.insert key value⟩

/-- `get`: the empty text if nothing is set. -/
def get (c : Config) (key : Bytes) : Bytes := (c.config.lookup key).getD []

/-- The names and texts of `set_defaults`. -/
def defaults : List (Bytes × Bytes) :=
  [(ascii "port", ascii "6399"), (ascii "bind", ascii "0.0.0.0"), (ascii "requirepass", []),
    (ascii "save", ascii "0"), (ascii "loglevel", ascii "notice"), (ascii "maxmemory", ascii "0")]

/-- `set_defaults`. -/
def setDefaults (c : Config) : Config := defaults.foldl (fun c p => c.set p.1 p.2) c

/-- The configuration after construction. -/
def new : Config := setDefaults ⟨∅⟩

/-! ### Configuration files -/

/-- The characters that are trimmed: `" \t\r\n"`. -/
def isBlank (c : UInt8) : Bool := c == 32 || c == 9 || c == CR || c == LF

/-- The value of a line, behind its name: the rest of the line without the white space in front and
the blanks at the end. -/
def readValue (iss : Bytes) : Bytes :=
  let value := (iss.dropWhile isSpace).takeWhile (· != LF)
  -- `find_last_not_of` finds nothing if there are only blanks
  if value.all isBlank then value else value.rdropWhile isBlank

/-- The body of the loop of `load_file` up to the assignment: the name and the text that a line
sets, or nothing if the line is passed over. -/
def parseLine (line : Bytes) : Option (Bytes × Bytes) :=
  let line := line.dropWhile isBlank
  if line = [] then none
  else if line.head? = some 35 then none
  else
    let iss := readToken line
    if iss.1 = [] then none else some (iss.1, readValue iss.2)

/-- One round of the loop of `load_file`. -/
def loadLine (c : Config) (line : Bytes) : Config :=
  match parseLine line with
  | none => c
  | some (key, value) => c.set key value

/-- `load_file`, on what the opened file delivers; `none` if it cannot be opened. -/
def loadFile (c : Config) (file : Option Bytes) : Bool × Config :=
  match file with
  | none => (false, c)
  | some content => (true, (getLines content).foldl loadLine c)

/-! ### What the server asks for -/

/-- `port`. -/
def port (c : Config) : Int32 := (stoi (c.get (ascii "port"))).getD 6399

/-- `bind_addr`. -/
def bindAddr (c : Config) : Bytes :=
  let addr := c.get (ascii "bind")
  if addr = [] then ascii "0.0.0.0" else addr

/-- `password`. -/
def password (c : Config) : Bytes := c.get (ascii "requirepass")

/-! ### Reading what was set -/

/-- What was set is what is got, and nothing else changes. -/
theorem get_set (c : Config) (key value key' : Bytes) :
    (c.set key value).get key' = if key = key' then value else c.get key' := by
  unfold get set
  by_cases h : key = key'
  · subst h
    rw [if_pos rfl, AList.lookup_insert, Option.getD_some]
  · rw [if_neg h, AList.lookup_insert_ne (Ne.symm h)]

end Config

end MyRedis
