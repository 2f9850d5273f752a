import Haml.Options

/-! The arguments of the command line. A command is named first; the commands that take a template
have its path and options in any order, an option's value behind an equals sign or as the next
argument. Whatever is unknown, missing or given twice makes the arguments unusable. -/

namespace Haml

/-- What is done with a template. -/
inductive Task
  | check
  | compile
  | render
  deriving DecidableEq, Repr

/-- What is said of a template on the command line. -/
structure Arguments where
  path : Option Text := none
  config : Option Text := none
  format : Option Format := none
  escapeHtml : Bool := false
  suppressEval : Bool := false
  attrWrapper : Option Char := none
  deriving DecidableEq, Repr

inductive Command
  | template (task : Task) (path : Text) (arguments : Arguments)
  | filters
  | help
  | version
  deriving DecidableEq, Repr

/-- The shapes of an argument. -/
inductive Argument
  | endOfOptions
  | long (name : Text) (value : Option Text)
  | short (name : Char)
  | plain (text : Text)
  deriving DecidableEq, Repr

/-- The shape of an argument. A lone hyphen is plain. -/
def Argument.ofText : Text → Argument
  | ['-', '-'] => endOfOptions
  | '-' :: '-' :: text =>
    match text.dropWhile (· != '=') with
    | '=' :: value => long (text.takeWhile (· != '=')) (some value)
    | _ => long text none
  | '-' :: name :: _ => short name
  | text => plain text

namespace Arguments

def setPath? (a : Arguments) (path : Text) : Option Arguments :=
  if a.path.isSome then none else some { a with path := some path }

def setFlag? (a : Arguments) (name : Text) : Option Arguments :=
  if name = "escape-html".toList && !a.escapeHtml then some { a with escapeHtml := true }
  else if name = "suppress-eval".toList && !a.suppressEval then some { a with suppressEval := true }
  else none

/-- The options that have a value. -/
def valued : List Text := ["config", "format", "attr-wrapper"]

def setValue? (a : Arguments) (name value : Text) : Option Arguments :=
  if name = "config".toList && a.config.isNone then some { a with config := some value }
  else if name = "format".toList && a.format.isNone then
    (Format.read? value).map fun f => { a with format := some f }
  else if name = "attr-wrapper".toList && a.attrWrapper.isNone then
    match value with
    | [c] => some { a with attrWrapper := some c }
    | _ => none
  else none

def finish? (task : Task) (a : Arguments) : Option Command :=
  a.path.map fun path => .template task path a

/-- Reads the arguments behind the name of a task. -/
def read? (task : Task) (a : Arguments) : List Text → Option Command
  | [] => finish? task a
  | first :: rest =>
    match Argument.ofText first with
    | .endOfOptions => (rest.foldlM setPath? a).bind (finish? task)
    | .short name => if name = 'h' then some .help else none
    | .plain text => (a.setPath? text).bind (read? task · rest)
    | .long name (some value) => (a.setValue? name value).bind (read? task · rest)
    | .long name none =>
      if name = "help".toList then some .help
      else if valued.contains name then
        match rest with
        | [] => none
        | value :: rest =>
          match Argument.ofText value with
          | .plain value => (a.setValue? name value).bind (read? task · rest)
          | _ => none
      else (a.setFlag? name).bind (read? task · rest)

end Arguments

namespace Command

/-- The names that help can be asked for. -/
def names : List Text := ["check", "compile", "render", "filters", "help"]

/-- Reads the arguments behind `help`: the name of a command, or nothing. -/
def readHelp? : List Text → Option Command
  | [] => some help
  | [name] => if names.contains name then some help else none
  | _ => none

/-- Reads the arguments behind `filters`, which has none of its own. -/
def readFilters? : List Text → Option Command
  | [] => some filters
  | first :: rest =>
    match Argument.ofText first with
    | .endOfOptions => if rest.isEmpty then some filters else none
    | .short name => if name = 'h' then some help else none
    | .long name none => if name = "help".toList then some help else none
    | _ => none

/-- The command that arguments name, if they are usable. -/
def read? : List Text → Option Command
  | [] => none
  | first :: rest =>
    match Argument.ofText first with
    | .short name => if name = 'h' then some help else if name = 'V' then some version else none
    | .long name none =>
      if name = "help".toList then some help
      else if name = "version".toList then some version
      else none
    | .plain name =>
      if name = "check".toList then Arguments.read? .check {} rest
      else if name = "compile".toList then Arguments.read? .compile {} rest
      else if name = "render".toList then Arguments.read? .render {} rest
      else if name = "filters".toList then readFilters? rest
      else if name = "help".toList then readHelp? rest
      else none
    | _ => none

end Command

end Haml
