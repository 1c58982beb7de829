import JsonQuery.CommandLine.Options
import JsonQuery.Settings.Basic
import JsonQuery.Stream.Run

/-!
# The command

What the program does with its arguments, as a function of everything that it can see: files,
environment and standard input.
-/

namespace JsonQuery.CommandLine

structure Surroundings where
  home : Option String
  environment : String → Option String
  file : String → FileContent
  input : ByteArray
  /-- standard output is shown to somebody -/
  terminal : Bool
  /-- the switch of the terminal for colors -/
  colorizes : Bool := terminal

inductive CommandError where
  | settings (error : SettingsError)
  | noInput (reason : PathError)
  | lockedInput
  | unreadableInput
  | run (error : Stream.RunError)
  deriving DecidableEq, Repr

def CommandError.message [Platform] : CommandError → String
  | .settings error => error.message
  | .noInput reason => "IO error: " ++ reason.message
  | .lockedInput => "IO error: Permission denied (os error 13)"
  | .unreadableInput => "couldn't decode JSON value #1: Is a directory (os error 21)"
  | .run error => error.message

/-- Exit code, standard output and what has gone wrong. -/
structure Response where
  code : Nat
  output : ByteArray
  error : Option CommandError

namespace Response

def success (output : ByteArray) : Response := ⟨0, output, none⟩

def failure (output : ByteArray) (error : CommandError) : Response := ⟨1, output, some error⟩

/-- The last line of standard error. -/
def errorText [Platform] (r : Response) : String :=
  match r.error with
  | some error => "jql: " ++ error.message ++ "\n"
  | none => ""

end Response

def versionText : String := "jql 0.1.0\n"

def usageText : String := "Usage: jql [OPTIONS] [QUERY]\n"

def helpText : String :=
"jql - A lispy query language for streams of JSON values

Usage: jql [OPTIONS] [QUERY]

Arguments:
  [QUERY]  The query to run against every input value [default: (id)]

Options:
  -i, --input <INPUT>    Read JSON from a file instead of stdin
  -m, --monochrome       Disable colored output
  -c, --compact          Print each result on a single line
      --config <CONFIG>  Config file (defaults to ~/.jql.toml)
      --syntax-only      Only validate syntax, don't execute
  -v, --verbose          Log compilation and per-record progress to stderr
  -h, --help             Print help
  -V, --version          Print version
"

variable [Platform]

def evaluateOn (query : String) (style : Json.Style) (input : ByteArray) : Response :=
  let outcome := Stream.run query style none input.data.toList
  match outcome.result with
  | .ok _ => .success outcome.output
  | .error error => .failure outcome.output (.run error)

/-- Evaluates the query on the values of the input. Settings are read before the input is opened,
the input is opened before the query is compiled, and read after that. -/
def evaluate (s : Surroundings) (o : Options) (query : String) : Response :=
  match Settings.load o.config s.home s.file s.environment with
  | .error error => .failure .empty (.settings error)
  | .ok settings =>
    let style : Json.Style := {
      pretty := !(o.compact || settings.compact)
      color := !(o.monochrome || settings.monochrome) && s.terminal
      colorizes := s.colorizes }
    match o.input.elim (.bytes s.input) s.file with
    | .missing reason => .failure .empty (.noInput reason)
    | .locked => .failure .empty .lockedInput
    | .unreadable =>
      match Query.compile query with
      | .ok _ => .failure .empty .unreadableInput
      | .error error => .failure .empty (.run (.compile error))
    | .bytes content => evaluateOn query style content

def check (query : String) : Response :=
  match Query.compile query with
  | .ok _ => .success "Syntax is valid\n".toUTF8
  | .error error => .failure .empty (.run (.compile error))

def defaultQuery : String := "(id)"

def respond (s : Surroundings) (args : List String) : Response :=
  match parse args with
  | .invalid => ⟨2, .empty, none⟩
  | .version => .success versionText.toUTF8
  | .help => .success helpText.toUTF8
  | .run o =>
    let query := o.query.getD defaultQuery
    if o.syntaxOnly then check query else evaluate s o query

/-- The files that an answer to these arguments may depend on, in the order in which they are
read. -/
def files (home : Option String) (args : List String) : List String :=
  match parse args with
  | .run o => (o.config <|> home.map (pathIn · Settings.fileName)).toList ++ o.input.toList
  | _ => []

end JsonQuery.CommandLine
