import GrammarLayers.Tree.Path

/-!
# Command line arguments

A command line names a command, gives it a root, a dialect and options, and may ask for
help. Flags may be set once at each level, before and after the command's name.

## Main definitions

* `Command`, `Invocation` — what is to be done
* `UsageFault` — why a command line is not carried out
* `Invocation.ofArguments` — read a command line

## Implementation notes

The value of an option or argument is judged only when the next one comes up, or at the end:
until then it is `pending`. So an unknown option after a bad value is what gets reported.
-/

namespace GrammarLayers

/-- The grammar that a command is about. -/
structure GrammarArguments where
  root : Path
  dialect : Path
  extension : Option String := none
  license : Option Path := none
  deriving DecidableEq, Repr

/-- A command with its options. -/
inductive Command where
  | extract (grammar : GrammarArguments) (json : Bool)
  | generate (grammar : GrammarArguments) (output : Option Path)
  | list (grammar : GrammarArguments) (origins sort tokens : Bool)
  | completions (shell : String)
  deriving DecidableEq, Repr

/-- A command, and whether it is to be quiet. -/
structure Invocation where
  quiet : Bool
  command : Command
  deriving DecidableEq, Repr

/-- Why a command line is not carried out. -/
inductive UsageFault where
  | helpRequested
  | versionRequested
  /-- Nothing at all is asked for. -/
  | noArguments
  | missingArgument
  | missingCommand
  | unknownArgument
  | unknownCommand
  /-- A value is missing, empty where it must not be, or not among those allowed. -/
  | invalidValue
  /-- A value is given to a flag. -/
  | unexpectedValue
  /-- An option or a flag is given twice. -/
  | repeatedOption
  deriving DecidableEq, Repr

/-- The exit code after a fault: help and version are no errors when they are asked for. -/
def UsageFault.exitCode : UsageFault → Nat
  | helpRequested | versionRequested => 0
  | _ => 2

/-- Which values an option or an argument takes. -/
inductive ValueRule where
  | any
  | nonEmpty
  | oneOf (values : List String)

/-- Whether a value is allowed. -/
def ValueRule.allows : ValueRule → String → Bool
  | any, _ => true
  | nonEmpty, value => !value.isEmpty
  | oneOf values, value => values.contains value

/-- What an option does. -/
inductive OptionEffect where
  | flag
  | value (rule : ValueRule)
  | help
  | version

/-- An option that a command knows. -/
structure OptionForm where
  name : String
  short : Option Char := none
  effect : OptionEffect

/-- What a command knows: its options, and its arguments in order. -/
structure CommandForm where
  options : List OptionForm
  arguments : List (String × ValueRule) := []

/-- The flag that all commands know. -/
def quietForm : OptionForm := ⟨"quiet", some 'q', .flag⟩

/-- The request for help. -/
def helpForm : OptionForm := ⟨"help", some 'h', .help⟩

/-- What can stand before the name of a command. -/
def topForm : CommandForm :=
  { options := [quietForm, helpForm, ⟨"version", some 'V', .version⟩] }

/-- What a command that assembles a grammar knows, besides options of its own. -/
def grammarForm (options : List OptionForm) : CommandForm :=
  { options :=
      [quietForm, helpForm, ⟨"extension", none, .value .any⟩,
        ⟨"license", none, .value .nonEmpty⟩] ++ options
    arguments := [("root", .nonEmpty), ("dialect", .nonEmpty)] }

/-- The shells that completions can be made for. -/
def shells : List String := ["bash", "elvish", "fish", "powershell", "zsh"]

/-- The commands by name. -/
def commandForms : List (String × CommandForm) := [
  ("extract", grammarForm [⟨"json", none, .flag⟩]),
  ("generate", grammarForm [⟨"output", some 'o', .value .nonEmpty⟩]),
  ("list",
    grammarForm [⟨"origins", none, .flag⟩, ⟨"sort", none, .flag⟩, ⟨"tokens", none, .flag⟩]),
  ("completions",
    { options := [quietForm, helpForm], arguments := [("shell", .oneOf shells)] })]

/-- The command that shows help. -/
def helpCommand : String := "help"

/-- A value that has not been judged yet. -/
structure PendingValue where
  name : String
  rule : ValueRule
  /-- Absent as long as the option waits for it. -/
  value : Option String

/-- What has been read at one level of a command line. -/
structure Reading where
  flags : List String := []
  values : List (String × String) := []
  pending : Option PendingValue := none
  /-- The number of arguments read. -/
  arguments : Nat := 0

namespace Reading

/-- Judges a value and keeps it. -/
def keep (r : Reading) (name value : String) (rule : ValueRule) : Except UsageFault Reading :=
  if (r.values.lookup name).isSome then .error .repeatedOption
  else if rule.allows value then .ok { r with values := (name, value) :: r.values }
  else .error .invalidValue

/-- Judges the pending value, if there is one. -/
def settle (r : Reading) : Except UsageFault Reading :=
  match r.pending with
  | none => .ok r
  | some ⟨_, _, none⟩ => .error .invalidValue
  | some ⟨name, rule, some value⟩ => { r with pending := none }.keep name value rule

/-- Reads an option. `attached` is a value that is written together with it. -/
def option (r : Reading) (form : OptionForm) (attached : Option String) :
    Except UsageFault Reading :=
  match form.effect, attached with
  | .value rule, some value => do (← r.settle).keep form.name value rule
  | .value rule, none => do
    let r ← r.settle
    return { r with pending := some ⟨form.name, rule, none⟩ }
  | _, some _ => .error .unexpectedValue
  | .flag, none => do
    let r ← r.settle
    if r.flags.contains form.name then throw .repeatedOption
    return { r with flags := form.name :: r.flags }
  | .help, none => do
    let _ ← r.settle
    throw .helpRequested
  | .version, none => do
    let _ ← r.settle
    throw .versionRequested

/-- Reads what follows two hyphens: a name, and a value after an equals sign. -/
def long (r : Reading) (form : CommandForm) (text : List Char) : Except UsageFault Reading :=
  let name := String.ofList (text.takeWhile (· != '='))
  let attached :=
    match text.dropWhile (· != '=') with
    | [] => none
    | _ :: value => some (String.ofList value)
  match form.options.find? (·.name == name) with
  | some option => r.option option attached
  | none => .error .unknownArgument

/-- Reads what follows one hyphen: letters of flags, and of an option with its value. -/
def shorts (r : Reading) (form : CommandForm) : List Char → Except UsageFault Reading
  | [] => .ok r
  | letter :: rest =>
    match form.options.find? (·.short == some letter) with
    | none => .error .unknownArgument
    | some option =>
      match option.effect, rest with
      | .value _, '=' :: value => r.option option (some (String.ofList value))
      | .value _, c :: value => r.option option (some (String.ofList (c :: value)))
      | _, _ => do shorts (← r.option option none) form rest

/-- Reads an argument. -/
def argument (r : Reading) (form : CommandForm) (value : String) : Except UsageFault Reading :=
  match form.arguments[r.arguments]? with
  | some (name, rule) => do
    let r ← r.settle
    return { r with pending := some ⟨name, rule, some value⟩, arguments := r.arguments + 1 }
  | none => .error .unknownArgument

/-- Reads a word that starts with a hyphen, if it is an option; none otherwise. -/
def option? (r : Reading) (form : CommandForm) (word : String) :
    Option (Except UsageFault Reading) :=
  match word.toList with
  | '-' :: '-' :: text => some (r.long form text)
  | '-' :: c :: text => some (r.shorts form (c :: text))
  | _ => none

/-- Reads the words after the name of a command. After two hyphens alone, `plain`, all of
them are arguments. -/
def words (form : CommandForm) : Bool → Reading → List String → Except UsageFault Reading
  | _, r, [] => r.settle
  | true, r, word :: rest => do words form true (← r.argument form word) rest
  | false, r, word :: rest =>
    if word = "--" then words form true r rest
    else
      match r.option? form word with
      | some r => do words form false (← r) rest
      | none =>
        match r.pending with
        | some ⟨name, rule, none⟩ =>
          words form false { r with pending := some ⟨name, rule, some word⟩ } rest
        | _ => do words form false (← r.argument form word) rest

/-- The value of an option. -/
def value? (r : Reading) (name : String) : Option String := r.values.lookup name

/-- Whether a flag is set. -/
def isSet (r : Reading) (flag : String) : Bool := r.flags.contains flag

/-- The value of an argument that must be there. -/
def required (r : Reading) (name : String) : Except UsageFault String :=
  match r.value? name with
  | some value => .ok value
  | none => .error .missingArgument

/-- The grammar that has been read about. -/
def grammar (r : Reading) : Except UsageFault GrammarArguments := do
  let root ← r.required "root"
  let dialect ← r.required "dialect"
  return {
    root := ⟨root⟩
    dialect := ⟨dialect⟩
    extension := r.value? "extension"
    license := (r.value? "license").map Path.mk }

/-- The command of a given name, with what has been read for it. -/
def command (r : Reading) (name : String) : Except UsageFault Command := do
  match name with
  | "extract" => return .extract (← r.grammar) (r.isSet "json")
  | "generate" => return .generate (← r.grammar) ((r.value? "output").map Path.mk)
  | "list" =>
    return .list (← r.grammar) (r.isSet "origins") (r.isSet "sort") (r.isSet "tokens")
  | _ => return .completions (← r.required "shell")

end Reading

namespace Invocation

/-- The request for help about what the words name. -/
def help : List String → UsageFault
  | [] => .helpRequested
  | [name] =>
    if name = helpCommand ∨ (commandForms.lookup name).isSome then .helpRequested
    else .unknownCommand
  | _ :: _ :: _ => .unknownCommand

/-- Reads the words of a command line, with what has been read of it. -/
def ofWords (r : Reading) : List String → Except UsageFault Invocation
  | [] => .error (if r.flags.isEmpty then .noArguments else .missingCommand)
  | word :: rest =>
    if word = helpCommand then .error (help rest)
    else
      match commandForms.lookup word with
      | some form => do
        let inner ← Reading.words form false {} rest
        let command ← inner.command word
        return ⟨r.isSet "quiet" || inner.isSet "quiet", command⟩
      | none =>
        if word = "--" then
          match rest with
          | [] => .error (if r.flags.isEmpty then .noArguments else .missingCommand)
          | next :: _ =>
            if next = helpCommand ∨ (commandForms.lookup next).isSome then
              .error .unknownArgument
            else .error .unknownCommand
        else
          match r.option? topForm word with
          | some r => do ofWords (← r) rest
          | none => .error .unknownCommand

/-- Reads a command line. -/
def ofArguments (arguments : List String) : Except UsageFault Invocation :=
  ofWords {} arguments

end Invocation

end GrammarLayers
