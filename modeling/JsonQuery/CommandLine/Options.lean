/-!
# Command-line options

Options and the query come in any order, short options may share a dash, and after `--` nothing
is an option. Each option is given at most once.
-/

namespace JsonQuery.CommandLine

structure Options where
  query : Option String
  input : Option String
  config : Option String
  monochrome : Bool
  compact : Bool
  syntaxOnly : Bool
  verbose : Bool
  deriving DecidableEq, Repr

inductive Request where
  | run (options : Options)
  | version
  | help
  | invalid
  deriving DecidableEq, Repr

inductive Switch where
  | monochrome
  | compact
  | syntaxOnly
  | verbose
  | version
  | help
  deriving DecidableEq, Repr

inductive PathOption where
  | input
  | config
  deriving DecidableEq, Repr

inductive Step where
  | go (options : Options)
  /-- the next argument is a path -/
  | wantsPath (option : PathOption) (options : Options)
  | stop (request : Request)
  deriving DecidableEq, Repr

namespace Options

def none : Options := ⟨.none, .none, .none, false, false, false, false⟩

def setQuery (o : Options) (query : String) : Step :=
  if o.query.isSome then .stop .invalid else .go { o with query := some query }

/-- Takes note of a switch. Asking for the version or for help ends the command line. -/
def setSwitch (o : Options) : Switch → Step
  | .monochrome => if o.monochrome then .stop .invalid else .go { o with monochrome := true }
  | .compact => if o.compact then .stop .invalid else .go { o with compact := true }
  | .syntaxOnly => if o.syntaxOnly then .stop .invalid else .go { o with syntaxOnly := true }
  | .verbose => if o.verbose then .stop .invalid else .go { o with verbose := true }
  | .version => .stop .version
  | .help => .stop .help

/-- Takes note of a path, which is never empty. -/
def setPath (o : Options) (option : PathOption) (path : String) : Step :=
  if path.isEmpty then .stop .invalid
  else
    match option with
    | .input => if o.input.isSome then .stop .invalid else .go { o with input := some path }
    | .config => if o.config.isSome then .stop .invalid else .go { o with config := some path }

end Options

def shortSwitch? : Char → Option Switch
  | 'm' => some .monochrome
  | 'c' => some .compact
  | 'v' => some .verbose
  | 'V' => some .version
  | 'h' => some .help
  | _ => none

def shortPath? : Char → Option PathOption
  | 'i' => some .input
  | _ => none

def longSwitch? : String → Option Switch
  | "monochrome" => some .monochrome
  | "compact" => some .compact
  | "syntax-only" => some .syntaxOnly
  | "verbose" => some .verbose
  | "version" => some .version
  | "help" => some .help
  | _ => none

def longPath? : String → Option PathOption
  | "input" => some .input
  | "config" => some .config
  | _ => none

/-- Options that share a dash. What follows one with a path is the path, perhaps after `=`. -/
def short (o : Options) : List Char → Step
  | [] => .go o
  | c :: rest =>
    match shortSwitch? c, shortPath? c, rest with
    | some switch, _, rest =>
      match o.setSwitch switch with
      | .go o => short o rest
      | step => step
    | none, some option, [] => .wantsPath option o
    | none, some option, '=' :: path => o.setPath option (String.ofList path)
    | none, some option, path => o.setPath option (String.ofList path)
    | none, none, _ => .stop .invalid

/-- An option after two dashes. Only a path may be given with `=`. -/
def long (o : Options) (text : List Char) : Step :=
  let name := String.ofList (text.takeWhile (· ≠ '='))
  match longSwitch? name, longPath? name, text.dropWhile (· ≠ '=') with
  | some switch, _, [] => o.setSwitch switch
  | none, some option, [] => .wantsPath option o
  | none, some option, _ :: path => o.setPath option (String.ofList path)
  | _, _, _ => .stop .invalid

def isOption (arg : String) : Bool :=
  match arg.toList with
  | '-' :: _ :: _ => true
  | _ => false

def argument (o : Options) (arg : String) : Step :=
  match arg.toList with
  | '-' :: '-' :: name => long o name
  | '-' :: c :: rest => short o (c :: rest)
  | _ => o.setQuery arg

/-- Arguments that are no options. -/
def queries (o : Options) : List String → Request
  | [] => .run o
  | arg :: rest =>
    match o.setQuery arg with
    | .go o => queries o rest
    | _ => .invalid

def parseFrom (o : Options) : List String → Request
  | [] => .run o
  | arg :: rest =>
    if arg = "--" then queries o rest
    else
      match argument o arg with
      | .go o => parseFrom o rest
      | .stop request => request
      | .wantsPath option o =>
        match rest with
        | [] => .invalid
        | path :: rest =>
          if isOption path then .invalid
          else
            match o.setPath option path with
            | .go o => parseFrom o rest
            | .stop request => request
            | .wantsPath .. => .invalid

def parse (args : List String) : Request := parseFrom .none args

end JsonQuery.CommandLine
