import DeclLang.Decimal
import DeclLang.Rendering

/-!
# The command line

What the arguments of the program ask for.  The first argument may name a command; without one,
all arguments are files to be shown.  A command takes flags, options with a value, and words; the
word `--` makes words of all that follows it.

An option stands pending until its value is there and another argument follows, and so does a row
of words; only then is it looked at.  An argument that no command could take is refused at once.
So of two mistakes in a command line the earlier one is not always the one that is reported.
-/

namespace DeclLang

/-- What the program is asked to do. -/
inductive Command where
  /-- Show the trees of files, in the usual way. -/
  | view (files : List String)
  /-- Show files in a form of one's choice. -/
  | parse (files : List String) (emit : Emit) (recover : Bool) (indent : Nat)
  /-- List the tokens of a file. -/
  | lex (file : String)
  /-- Format files, or tell which are not formatted. -/
  | fmt (path : String) (check diff singleQuotes : Bool)
deriving DecidableEq

/-- Why a command line asks for nothing that can be done. -/
inductive UsageError where
  | helpAsked
  | versionAsked
  | nothingAsked
  | unknownArgument
  | unknownCommand
  | repeatedArgument
  | unneededValue
  | missingArgument
  | invalidValue
  | malformedNumber
deriving DecidableEq

/-- The exit code of the program: asking for help or for the version is no failure. -/
def UsageError.exitCode : UsageError → Nat
  | helpAsked | versionAsked => 0
  | _ => 2

namespace Arguments

/-! ## What commands take -/

/-- An argument that is either there or not. -/
inductive Flag where
  | recover
  | check
  | diff
  | singleQuotes
deriving DecidableEq

/-- An argument with a value. -/
inductive Setting where
  | emit
  | indent
deriving DecidableEq

/-- What a command takes beside `help`. -/
structure Signature where
  /-- Its flags. -/
  flags : List Flag := []
  /-- Its options. -/
  settings : List Setting := []
  /-- Whether it takes more than one word. -/
  manyWords : Bool := false
  /-- Whether it can be asked for the version. -/
  hasVersion : Bool := false

/-- The name of a flag behind its two dashes. -/
def Flag.name : Flag → String
  | recover => "recover"
  | check => "check"
  | diff => "diff"
  | singleQuotes => "single-quotes"

/-- The name of an option behind its two dashes. -/
def Setting.name : Setting → String
  | emit => "emit"
  | indent => "indent"

/-- What the arguments have said so far. -/
structure Given where
  /-- The flags that were given. -/
  flags : List Flag := []
  /-- The form that was asked for. -/
  emit : Option Emit := none
  /-- The width that was asked for. -/
  indent : Option Nat := none
  /-- The words that were given. -/
  words : List String := []

/-! ## Pending arguments -/

/-- An argument that has not been looked at. -/
inductive Pending where
  | nothing
  | setting (setting : Setting) (value : Option String)
  | words (words : List String)

/-- Takes an option with its value. -/
def Given.set (given : Given) (setting : Setting) (value : String) : Except UsageError Given :=
  match setting with
  | .emit =>
    if given.emit.isSome then .error .repeatedArgument
    else match Emit.ofWord? value with
      | some emit => .ok { given with emit := some emit }
      | none => .error .invalidValue
  | .indent =>
    if given.indent.isSome then .error .repeatedArgument
    else match Decimal.unsigned64? value with
      | some indent => .ok { given with indent := some indent }
      | none => .error .malformedNumber

/-- Looks at a pending argument.  An option needs a value, and no word is empty. -/
def Given.settle (given : Given) : Pending → Except UsageError Given
  | .nothing => .ok given
  | .setting _ none => .error .invalidValue
  | .setting setting (some value) => given.set setting value
  | .words words =>
    if words.any fun word => word == "" then .error .invalidValue
    else .ok { given with words := given.words ++ words }

/-! ## Reading -/

/-- What an argument looks like. -/
inductive Shape where
  /-- The word after which there are only words. -/
  | separator
  /-- Two dashes, a name, and perhaps a value behind an equals sign. -/
  | long (name : String) (value : Option String)
  /-- A dash and one or more letters, of which the first counts. -/
  | short (letter : Char)
  /-- Anything else, a single dash included. -/
  | word

/-- What an argument looks like. -/
def shape (argument : String) : Shape :=
  match argument.toList with
  | ['-', '-'] => .separator
  | '-' :: '-' :: cs =>
    let name := cs.takeWhile (· != '=')
    .long (String.ofList name)
      (if name.length < cs.length then some (String.ofList (cs.drop (name.length + 1))) else none)
  | '-' :: letter :: _ => .short letter
  | _ => .word

/-- Reads the arguments of a command.  `trailing` says that only words follow. -/
def readFrom (signature : Signature) (trailing : Bool) (given : Given) (pending : Pending) :
    List String → Except UsageError Given
  | [] => given.settle pending
  | argument :: more =>
    let readWord : Except UsageError Given :=
      match pending with
      | .words words =>
        if signature.manyWords then
          readFrom signature trailing given (.words (words ++ [argument])) more
        else .error .unknownArgument
      | pending =>
        if !signature.manyWords && !given.words.isEmpty then .error .unknownArgument
        else do readFrom signature trailing (← given.settle pending) (.words [argument]) more
    if trailing then readWord
    else match shape argument with
      | .separator => readFrom signature true given pending more
      | .short letter =>
        if letter = 'h' then do let _ ← given.settle pending; .error .helpAsked
        else if letter = 'V' ∧ signature.hasVersion then do
          let _ ← given.settle pending; .error .versionAsked
        else .error .unknownArgument
      | .long name value =>
        if name = "help" ∨ (name = "version" ∧ signature.hasVersion) then
          match value with
          | some _ => .error .unneededValue
          | none => do
            let _ ← given.settle pending
            .error (if name = "help" then .helpAsked else .versionAsked)
        else match signature.flags.find? fun flag => flag.name == name with
          | some flag =>
            match value with
            | some _ => .error .unneededValue
            | none => do
              let given ← given.settle pending
              if given.flags.contains flag then .error .repeatedArgument
              else readFrom signature false { given with flags := flag :: given.flags } .nothing more
          | none =>
            match signature.settings.find? fun setting => setting.name == name with
            | some setting => do
              let given ← given.settle pending
              match value with
              | some value => readFrom signature false (← given.set setting value) .nothing more
              | none => readFrom signature false given (.setting setting none) more
            | none => .error .unknownArgument
      | .word =>
        match pending with
        | .setting setting none =>
          readFrom signature false given (.setting setting (some argument)) more
        | _ => readWord

/-- Reads the arguments of a command. -/
def read (signature : Signature) (arguments : List String) : Except UsageError Given :=
  readFrom signature false {} .nothing arguments

end Arguments

namespace Command

open Arguments

/-- Reads the arguments behind `parse`. -/
def readParse (arguments : List String) : Except UsageError Command := do
  let given ← Arguments.read ⟨[.recover], [.emit, .indent], true, false⟩ arguments
  if given.words.isEmpty then .error .missingArgument
  else .ok (.parse given.words (given.emit.getD .tree) (given.flags.contains .recover)
    (given.indent.getD 2))

/-- Reads the arguments behind `lex`. -/
def readLex (arguments : List String) : Except UsageError Command := do
  let given ← Arguments.read {} arguments
  match given.words with
  | [] => .error .missingArgument
  | file :: _ => .ok (.lex file)

/-- Reads the arguments behind `fmt`.  The working directory is formatted if nothing else is
named. -/
def readFmt (arguments : List String) : Except UsageError Command := do
  let given ← Arguments.read ⟨[.check, .diff, .singleQuotes], [], false, false⟩ arguments
  .ok (.fmt (given.words.headD ".") (given.flags.contains .check) (given.flags.contains .diff)
    (given.flags.contains .singleQuotes))

/-- Reads the words behind `help`: at most one, the name of a command. -/
def readHelp : List String → UsageError
  | [] => .helpAsked
  | [word] =>
    if ["parse", "lex", "fmt", "help"].contains word then .helpAsked else .unknownCommand
  | _ => .unknownCommand

/-- Reads the arguments of the program when none of them names a command. -/
def readView (arguments : List String) : Except UsageError Command := do
  let given ← Arguments.read ⟨[], [], true, true⟩ arguments
  if given.words.isEmpty then .error .nothingAsked else .ok (.view given.words)

/-- What the arguments of the program ask for. -/
def ofArguments : List String → Except UsageError Command
  | "parse" :: arguments => readParse arguments
  | "lex" :: arguments => readLex arguments
  | "fmt" :: arguments => readFmt arguments
  | "help" :: arguments => .error (readHelp arguments)
  | arguments => readView arguments

end Command

end DeclLang
