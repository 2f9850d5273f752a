import Haml.Command.Arguments
import Haml.Compile
import Haml.Listing
import Haml.Options.Config
import Haml.Render

/-! Running a command. Options come from the configuration, if one is named, and then from the
arguments; the template is read after it. What a command writes and its exit status are values, so
that only reading the arguments and files is left to the program around it. -/

namespace Haml

/-- What stands under a path. -/
inductive FileState
  | missing
  | unreadable (reason : Text)
  | readable (text : Text)
  deriving DecidableEq, Repr

/-- What commands read. Standard input can be read once. -/
structure Environment where
  stdin : Text
  file : Text → FileState

structure Outcome where
  status : Nat
  stdout : Text
  stderr : Text
  deriving DecidableEq, Repr

namespace Outcome

def success (stdout : Text) : Outcome := ⟨0, stdout, []⟩

def failure (message : Text) : Outcome := ⟨1, [], message ++ ['\n']⟩

/-- A template that does not compile. Where reading broke off, the status tells. -/
def ofError (e : CompileError) : Outcome :=
  match e with
  | .read (.invalid .splitMark _) => ⟨101, [], SyntaxFault.splitMark.message ++ ['\n']⟩
  | _ => failure e.message

theorem status_ofError (e : CompileError) : (ofError e).status ≠ 0 := by
  unfold ofError
  split <;> nofun

end Outcome

namespace Environment

/-- The text under a path, a hyphen being standard input, and what is left to read. -/
def read (env : Environment) (path : Text) : Except Text Text × Environment :=
  if path = ['-'] then (.ok env.stdin, { env with stdin := [] })
  else
    (match env.file path with
      | .missing => .error ("Error: file not found: " ++ path)
      | .unreadable reason => .error ("Error reading " ++ path ++ ": " ++ reason)
      | .readable text => .ok text, env)

end Environment

/-- The evaluator of programs that hold no code: it refuses all it is asked. -/
def noEvaluator : Evaluator Unit where
  evaluate code _ := (.error (.failed ("no evaluator for `" ++ code ++ "`")), ())
  runBlock statement _ :=
    .done (.error (.failed ("no evaluator for `" ++ statement.code ++ "`"))) ()

namespace Command

/-- Options with those of the arguments on top. -/
def override (o : Options) (a : Arguments) : Options :=
  { o with
    format := a.format.getD o.format
    escapeHtml := a.escapeHtml || o.escapeHtml
    suppressEval := a.suppressEval || o.suppressEval
    attrWrapper := a.attrWrapper.getD o.attrWrapper }

/-- The options of a command, and what is left to read. -/
def options (env : Environment) (a : Arguments) : Except Text Options × Environment :=
  match a.config with
  | none => (.ok (override {} a), env)
  | some path =>
    match env.read path with
    | (.error message, env) => (.error message, env)
    | (.ok text, env) =>
      match Options.read? text with
      | none => (.error ("Error in config " ++ path ++ ": these are no options"), env)
      | some o => (.ok (override o a), env)

/-- Checks a template: it has to compile. -/
def check (path : Text) (source : Text) (o : Options) : Outcome :=
  match Program.compile source o .builtin with
  | .error e => .ofError e
  | .ok _ => ⟨0, [], "OK: " ++ path ++ ['\n']⟩

/-- Lists the program of a template. -/
def compile (source : Text) (o : Options) : Outcome :=
  match Program.compile source o .builtin with
  | .error e => .ofError e
  | .ok p => .success p.listing

/-- Renders a template with all code left out. -/
def render (source : Text) (o : Options) : Outcome :=
  match Program.compile source { o with suppressEval := true } .builtin with
  | .error e => .ofError e
  | .ok p =>
    match (p.render .builtin noEvaluator ()).1 with
    | .error e => .failure e.message
    | .ok html => .success html

/-- How the command line is used. -/
def usage : Text :=
  "Usage: haml <check|compile|render> [OPTIONS] <PATH>\n" ++
  "       haml filters\n\n" ++
  "  --config <FILE>\n  --format <xhtml|html4|html5>\n  --escape-html\n" ++
  "  --suppress-eval\n  --attr-wrapper <CHARACTER>\n"

def run (env : Environment) : Command → Outcome
  | filters => .success (Registry.builtin.names.flatMap (· ++ ['\n']))
  | help => .success usage
  | version => .success "haml 0.7.0\n"
  | template task path a =>
    match options env a with
    | (.error message, _) => .failure message
    | (.ok o, env) =>
      match (env.read path).1 with
      | .error message => .failure message
      | .ok source =>
        match task with
        | .check => check path source o
        | .compile => compile source o
        | .render => render source o

/-- Runs a command line. Arguments that name no command end in status two. -/
def runArguments (env : Environment) (arguments : List Text) : Outcome :=
  match read? arguments with
  | none => ⟨2, [], usage⟩
  | some command => command.run env

/-- The paths that a command reads. -/
def paths : Command → List Text
  | template _ path a => a.config.toList ++ [path]
  | _ => []

end Command

end Haml
