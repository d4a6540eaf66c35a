import TreeRewrite.Settings

/-!
# Command-line arguments

Arguments are read from the first to the last, and the first one that settles the matter does: it
asks for help or the version, or it is a mistake.  Otherwise they amount to a `Command`.

An option is `--name=value` or `--name value`; a value of its own may not start with a dash, unless
it is a single one.  Every option but `--recipe` may be given once before the command and once
behind it, where it has a meaning.
-/

set_option autoImplicit false

namespace TreeRewrite

/-- The name of the program. -/
def programName : String := "tugpattern"

/-- The version of the program. -/
def programVersion : String := "0.1.0"

/-- The arguments of the command `run`. -/
structure RunArguments where
  input : String
  recipes : List String
  outputDir? : Option String := none
  flags : Layer := {}
deriving DecidableEq, Repr

/-- What the program is asked to do. -/
inductive Command where
  /-- Run recipes over a tree. -/
  | run (arguments : RunArguments)
  /-- List the built-in kinds. -/
  | kinds
  /-- List the recipes. -/
  | recipes
deriving DecidableEq, Repr

/-- Why arguments amount to no command. -/
inductive Stop where
  /-- They ask for help. -/
  | help
  /-- They ask for the version. -/
  | version
  /-- They are mistaken. -/
  | mistake
deriving DecidableEq, Repr

namespace Arguments

/-- A single argument. -/
inductive Token where
  /-- `--`, behind which everything is a word. -/
  | escape
  /-- `--name` or `--name=value` -/
  | long (name : String) (value? : Option String)
  /-- `-x`, whatever follows it -/
  | short (letter : Char)
  /-- Anything else. -/
  | word (text : String)
deriving DecidableEq, Repr

/-- Tells apart the forms of an argument. -/
def Token.ofText (text : String) : Token :=
  match text.toList with
  | ['-', '-'] => .escape
  | '-' :: '-' :: rest =>
    let name := String.ofList (rest.takeWhile (· != '='))
    match rest.dropWhile (· != '=') with
    | [] => .long name none
    | _ :: value => .long name (some (String.ofList value))
  | '-' :: letter :: _ => .short letter
  | _ => .word text

/-- Options that have been read, in order. -/
abbrev Options := List (String × String)

/-- The value of an option. -/
def Options.get? (options : Options) (name : String) : Option String := options.lookup name

/-- All values of an option that may be repeated. -/
def Options.all (options : Options) (name : String) : List String :=
  (options.filter fun option => option.1 == name).map Prod.snd

/-- Where an option may stand. -/
inductive Level where
  | top
  | run
  | listing
deriving DecidableEq, Repr

/-- The options with a value that belong to the command `run`. -/
def runOptions : List String :=
  ["input", "recipe", "output-dir", "scope-param", "renamed-param", "inject-token", "bundle-feed"]

/-- Has the option a value?  None if there is no such option on the level. -/
def takesValue? (level : Level) (name : String) : Option Bool :=
  if name = "log-level" then some true
  else if name = "log-json" then some false
  else if level = .run && runOptions.contains name then some true
  else none

/-- The log levels. -/
def logLevels : List String := ["trace", "debug", "info", "warn", "error"]

/-- Is the value admitted?  Paths must not be empty. -/
def admits (name value : String) : Bool :=
  if name = "log-level" then logLevels.contains value
  else if name = "input" || name = "output-dir" then !value.isEmpty
  else true

/-- Adds an option. -/
def addOption (options : Options) (name value : String) : Except Stop Options :=
  if !admits name value then .error .mistake
  else if name != "recipe" && (options.get? name).isSome then .error .mistake
  else .ok (options ++ [(name, value)])

/-- What a short option asks for. -/
def shortStop (level : Level) (letter : Char) : Stop :=
  if letter = 'h' then .help
  else if letter = 'V' && level = .top then .version
  else .mistake

/-- Reads the options in front of the first word; the word and what follows it are the rest. -/
def readOptions (level : Level) (options : Options) :
    List String → Except Stop (Options × List String)
  | [] => .ok (options, [])
  | text :: rest =>
    match Token.ofText text with
    | .word _ => .ok (options, text :: rest)
    | .escape => if rest.isEmpty then .ok (options, []) else .error .mistake
    | .short letter => .error (shortStop level letter)
    | .long name value? =>
      match takesValue? level name, value? with
      | none, none =>
        if name = "help" then .error .help
        else if name = "version" && level = .top then .error .version
        else .error .mistake
      | none, some _ => .error .mistake
      | some false, some _ => .error .mistake
      | some false, none => do readOptions level (← addOption options name "") rest
      | some true, some value => do readOptions level (← addOption options name value) rest
      | some true, none =>
        match rest with
        | [] => .error .mistake
        | value :: rest =>
          match Token.ofText value with
          | .word value => do readOptions level (← addOption options name value) rest
          | _ => .error .mistake

/-- Reads the options of a command, behind which no word may stand. -/
def readAllOptions (level : Level) (texts : List String) : Except Stop Options := do
  let (options, rest) ← readOptions level [] texts
  if rest.isEmpty then return options else throw .mistake

/-- The commands by name. -/
def commandNames : List String := ["run", "kinds", "recipes", "help"]

/-- The arguments of `run`; an input and a recipe must be among them. -/
def readRun (texts : List String) : Except Stop RunArguments := do
  let options ← readAllOptions .run texts
  let flags : Layer :=
    { scopeParam? := options.get? "scope-param"
      renamedParam? := options.get? "renamed-param"
      injectToken? := options.get? "inject-token"
      bundleFeed? := options.get? "bundle-feed" }
  match options.get? "input", options.all "recipe" with
  | some input, recipe :: more =>
    return { input, recipes := recipe :: more, outputDir? := options.get? "output-dir", flags }
  | _, _ => throw .mistake

/-- The command that arguments amount to. -/
def read (texts : List String) : Except Stop Command := do
  let (_, rest) ← readOptions .top [] texts
  match rest with
  | "run" :: rest => return .run (← readRun rest)
  | "kinds" :: rest => do
    let _ ← readAllOptions .listing rest
    return .kinds
  | "recipes" :: rest => do
    let _ ← readAllOptions .listing rest
    return .recipes
  | ["help"] => throw .help
  | ["help", name] => throw (if commandNames.contains name then .help else .mistake)
  | _ => throw .mistake

end Arguments

end TreeRewrite
