import RouteManifest.DocumentFormat

/-!
# Arguments of the command line

The program has two commands: `generate` writes the manifest, `output` only says where it would be written.
The options of a command follow it; `--verbose` may also stand in front of it.

An option takes its value from what is attached to it or from the next argument. A value that is an argument
of its own is only looked at when the next option comes, or at the end; so an unknown argument behind it is
what gets reported first. Nothing may be given twice on one side of the command.
-/

namespace RouteManifest

namespace CommandLine

/-- What the program is asked to do. -/
inductive Command where
  /-- write the manifest, where and how the configuration says unless told otherwise, and the OpenAPI document
  if a path for it is known -/
  | generate (config : Path) (output : Option Path) (format : Option DocumentFormat) (openApi : Option Path)
  /-- print where the manifest is written -/
  | output (config : Path)
deriving DecidableEq, Repr

/-- A command, and whether it should tell what it does. -/
structure Invocation where
  command : Command
  verbose : Bool
deriving DecidableEq, Repr

/-- Why arguments do not denote a command. Asking for help or for the version counts. -/
inductive UsageFault where
  | helpWanted | versionWanted | nothingGiven | commandMissing | unknownCommand | unknownArgument
  | invalidValue | repeatedArgument | unneededValue
deriving DecidableEq, Repr

/-! ## Options -/

/-- The options. -/
inductive Flag where
  | config | output | format | openApi | verbose | help | version
deriving DecidableEq, Repr

namespace Flag

/-- Whether the option has a value. -/
def takesValue : Flag → Bool
  | .config | .output | .format | .openApi => true
  | .verbose | .help | .version => false

/-- Whether a text can be the value of the option. -/
def admits : Flag → String → Bool
  | .format, value => (DocumentFormat.ofName? value).isSome
  | _, value => !value.isEmpty

end Flag

/-- Where an argument stands: in front of the command, or behind one. -/
inductive Level where
  | program | generate | output
deriving DecidableEq, Repr

namespace Level

/-- The options that are known there. -/
def flags : Level → List Flag
  | .program => [.verbose, .help, .version]
  | .generate => [.config, .output, .format, .openApi, .verbose, .help]
  | .output => [.config, .verbose, .help]

/-- The option of a letter. -/
def short? (l : Level) (c : Char) : Option Flag :=
  let flag? : Option Flag := match c with
    | 'c' => some .config
    | 'o' => some .output
    | 'f' => some .format
    | 'v' => some .verbose
    | 'h' => some .help
    | 'V' => some .version
    | _ => none
  flag?.filter (l.flags.contains ·)

/-- The option of a name. -/
def long? (l : Level) (name : String) : Option Flag :=
  let flag? : Option Flag := match name with
    | "config" => some .config
    | "output" => some .output
    | "format" => some .format
    | "openapi" => some .openApi
    | "verbose" => some .verbose
    | "help" => some .help
    | "version" => some .version
    | _ => none
  flag?.filter (l.flags.contains ·)

end Level

/-- An argument by its form. -/
inductive Argument where
  /-- two hyphens: no option follows -/
  | escape
  | long (name : String) (value : Option String)
  | short (letters : List Char)
  | word (text : String)
deriving DecidableEq, Repr

/-- The form of an argument. A single hyphen is a word. -/
def Argument.ofText (text : String) : Argument :=
  match text.toList with
  | ['-', '-'] => .escape
  | '-' :: '-' :: rest =>
    let name := rest.takeWhile (· != '=')
    match rest.drop name.length with
    | _ :: value => .long (String.ofList name) (some (String.ofList value))
    | [] => .long (String.ofList name) none
  | '-' :: c :: rest => .short (c :: rest)
  | _ => .word text

/-! ## Taking options in -/

/-- The options given so far. -/
structure Given where
  flags : List Flag := []
  values : List (Flag × String) := []
  /-- an option that waits for its value, or whose value has not been looked at -/
  pending : Option (Flag × Option String) := none
deriving DecidableEq, Repr

namespace Given

variable (g : Given)

/-- The value of an option. -/
def value? (f : Flag) : Option String := (g.values.find? (·.1 == f)).map Prod.snd

/-- Takes an option with a value. -/
def accept (f : Flag) (value : String) : Except UsageFault Given :=
  if g.flags.contains f then .error .repeatedArgument
  else if !f.admits value then .error .invalidValue
  else .ok { g with flags := g.flags ++ [f], values := g.values ++ [(f, value)] }

/-- Looks at the value that has not been looked at. -/
def settle : Except UsageFault Given :=
  match g.pending with
  | none => .ok g
  | some (_, none) => .error .invalidValue
  | some (f, some value) => { g with pending := none }.accept f value

/-- Takes an option without a value. -/
def raise (f : Flag) : Except UsageFault Given := do
  let g ← g.settle
  match f with
  | .help => .error .helpWanted
  | .version => .error .versionWanted
  | f => if g.flags.contains f then .error .repeatedArgument else .ok { g with flags := g.flags ++ [f] }

/-- Takes an option with its value or, where none is attached to it, waits for the value. -/
def attach (f : Flag) (value : Option String) : Except UsageFault Given := do
  let g ← g.settle
  match value with
  | some value => g.accept f value
  | none => .ok { g with pending := some (f, none) }

/-- Takes an option by its name. -/
def long (l : Level) (name : String) (value : Option String) : Except UsageFault Given :=
  match l.long? name with
  | none => .error .unknownArgument
  | some f =>
    if f.takesValue then g.attach f value
    else if value.isSome then .error .unneededValue
    else g.raise f

/-- Takes options by their letters. What follows the letter of an option with a value is that value, with or
without an equals sign in front. -/
def short (l : Level) (g : Given) : List Char → Except UsageFault Given
  | [] => .ok g
  | c :: rest =>
    match l.short? c with
    | none => .error .unknownArgument
    | some f =>
      if f.takesValue then
        match rest with
        | [] => g.attach f none
        | '=' :: value => g.attach f (some (String.ofList value))
        | value => g.attach f (some (String.ofList value))
      else do short l (← g.raise f) rest

/-- Takes the options behind a command. -/
def readAll (l : Level) (g : Given) : List String → Except UsageFault Given
  | [] => g.settle
  | arg :: rest =>
    match Argument.ofText arg with
    | .escape => if rest.isEmpty then g.settle else .error .unknownArgument
    | .long name value => do readAll l (← g.long l name value) rest
    | .short letters => do readAll l (← short l g letters) rest
    | .word text =>
      match g.pending with
      | some (f, none) => readAll l { g with pending := some (f, some text) } rest
      | _ => .error .unknownArgument

end Given

/-! ## Commands -/

/-- Where a configuration is looked for unless the command says otherwise. -/
def defaultConfig : String := "controllers.json"

/-- The path that an option gives. -/
def Given.path? (g : Given) (f : Flag) : Option Path := (g.value? f).map Path.mk

/-- The configuration that is meant. -/
def Given.config (g : Given) : Path := (g.path? .config).getD ⟨defaultConfig⟩

/-- The words that are commands. -/
def isCommand (word : String) : Bool := ["generate", "output", "help"].contains word

/-- What asking for help on some words comes to. -/
def helpOn : List String → UsageFault
  | [] => .helpWanted
  | [word] => if isCommand word then .helpWanted else .unknownCommand
  | _ => .unknownCommand

/-- Reads the command and what stands in front of it. -/
def parseFrom (g : Given) : List String → Except UsageFault Invocation
  | [] => .error (if g.flags.isEmpty then .nothingGiven else .commandMissing)
  | "generate" :: rest => do
    let h ← Given.readAll .generate {} rest
    let format := (h.value? .format).bind DocumentFormat.ofName?
    return {
      command := .generate h.config (h.path? .output) format (h.path? .openApi)
      verbose := g.flags.contains .verbose || h.flags.contains .verbose }
  | "output" :: rest => do
    let h ← Given.readAll .output {} rest
    return {
      command := .output h.config
      verbose := g.flags.contains .verbose || h.flags.contains .verbose }
  | "help" :: rest => .error (helpOn rest)
  | arg :: rest =>
    match Argument.ofText arg with
    | .escape =>
      match rest with
      | [] => .error (if g.flags.isEmpty then .nothingGiven else .commandMissing)
      | word :: _ => .error (if isCommand word then .unknownArgument else .unknownCommand)
    | .long name value => do parseFrom (← g.long .program name value) rest
    | .short letters => do parseFrom (← Given.short .program g letters) rest
    | .word _ => .error .unknownCommand

/-- The invocation that arguments denote. -/
def parse (args : List String) : Except UsageFault Invocation := parseFrom {} args

end CommandLine

end RouteManifest
