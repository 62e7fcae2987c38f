/-! # Command lines

How arguments are read. A level of a command has switches, each at most once, positional
arguments and subcommands; an argument that is the name of a subcommand starts it, unless a switch
waits for its value. Switches are given by a long name or by a letter, values behind an equals
sign or as the next argument, and letters in one cluster; two dashes end the switches. -/
namespace SearchQuery.Command

/-- Why a command line is not run. -/
inductive Stop
  | help
  | version
  | usage
deriving DecidableEq, Repr

structure Switch where
  name : String
  letter : Option Char
  /-- The values allowed; none when the switch takes no value. -/
  accepts : Option (String → Bool)

structure Level where
  switches : List Switch
  /-- The values allowed for the positional arguments, in order. -/
  positionals : List (String → Bool) := []
  subcommands : List String := []
  /-- Whether the version can be asked for. -/
  hasVersion : Bool := false

/-- What the arguments of a level give. -/
structure Given where
  switches : List (String × Option String) := []
  positionals : List String := []
  /-- The name of a subcommand, with the arguments behind it. -/
  subcommand : Option (String × List String) := none

namespace Given

def has (g : Given) (name : String) : Bool := g.switches.any fun s => s.1 = name

def value? (g : Given) (name : String) : Option String := (g.switches.lookup name).join

def addSwitch (g : Given) (s : Switch) (value : Option String) : Except Stop Given :=
  let allowed := match s.accepts, value with
    | none, none => true
    | some ok, some v => ok v
    | _, _ => false
  if g.has s.name || !allowed then .error .usage
  else .ok { g with switches := (s.name, value) :: g.switches }

def addPositional (g : Given) (l : Level) (value : String) : Except Stop Given :=
  match l.positionals[g.positionals.length]? with
  | some ok =>
    if ok value then .ok { g with positionals := g.positionals ++ [value] } else .error .usage
  | none => .error .usage

end Given

namespace Level

/-- A long name; help and version are known everywhere and at the top. -/
def long (l : Level) (name : String) : Except Stop Switch :=
  match l.switches.find? fun s => s.name = name with
  | some s => .ok s
  | none =>
    if name = "help" then .error .help
    else if name = "version" ∧ l.hasVersion then .error .version
    else .error .usage

def letter (l : Level) (c : Char) : Except Stop Switch :=
  match l.switches.find? fun s => s.letter = some c with
  | some s => .ok s
  | none =>
    if c = 'h' then .error .help
    else if c = 'V' ∧ l.hasVersion then .error .version
    else .error .usage

/-- A cluster of letters. The first switch that takes a value takes the rest of the cluster; it
is left to wait when there is nothing left. -/
def cluster (l : Level) (g : Given) : List Char → Except Stop (Given × Option Switch)
  | [] => .ok (g, none)
  | c :: cs => do
    let s ← l.letter c
    match s.accepts, cs with
    | none, _ => cluster l (← g.addSwitch s none) cs
    | some _, [] => pure (g, some s)
    | some _, '=' :: v => pure (← g.addSwitch s (some (String.ofList v)), none)
    | some _, v => pure (← g.addSwitch s (some (String.ofList v)), none)

/-- A long switch, with its value when there is an equals sign. -/
def longSwitch (l : Level) (g : Given) (cs : List Char) : Except Stop (Given × Option Switch) := do
  let name := String.ofList (cs.takeWhile (· ≠ '='))
  match cs.dropWhile (· ≠ '=') with
  | [] =>
    let s ← l.long name
    if s.accepts.isSome then pure (g, some s) else pure (← g.addSwitch s none, none)
  | _ :: v =>
    if l.switches.any fun s => s.name = name then
      pure (← g.addSwitch (← l.long name) (some (String.ofList v)), none)
    else throw .usage

/-- How the next argument is to be taken. -/
inductive Mode
  | any
  | valueOf (s : Switch)
  | positional

/-- Reads the arguments of a level, up to a subcommand. -/
def read (l : Level) (g : Given) : Mode → List String → Except Stop Given
  | .valueOf _, [] => .error .usage
  | _, [] => .ok g
  | .positional, arg :: rest => do read l (← g.addPositional l arg) .positional rest
  | .valueOf s, arg :: rest =>
    if arg.toList.head? = some '-' ∧ arg ≠ "-" then .error .usage
    else do read l (← g.addSwitch s (some arg)) .any rest
  | .any, arg :: rest =>
    if l.subcommands.contains arg then .ok { g with subcommand := some (arg, rest) }
    else match arg.toList with
      | ['-', '-'] => read l g .positional rest
      | '-' :: '-' :: cs => do
        let (g, waiting) ← l.longSwitch g cs
        read l g (waiting.elim .any .valueOf) rest
      | '-' :: c :: cs => do
        let (g, waiting) ← l.cluster g (c :: cs)
        read l g (waiting.elim .any .valueOf) rest
      | _ => do read l (← g.addPositional l arg) .any rest

end Level
end SearchQuery.Command
