import ContractAudit.CommandLine.Words
import ContractAudit.Risk

/-!
# Requests

What a command line asks for: a command on one contract file with its options, the help or the
version.
-/

namespace ContractAudit.CommandLine

/-- The commands. -/
inductive Command where
  | analyze
  | audit
  | validate
  | parse
  | stats
deriving DecidableEq, Repr

namespace Command

def all : List Command := [.analyze, .audit, .validate, .parse, .stats]

def label : Command → String
  | .analyze => "analyze"
  | .audit => "audit"
  | .validate => "validate"
  | .parse => "parse"
  | .stats => "stats"

def description : Command → String
  | .analyze => "Analyze a contract for issues and vulnerabilities."
  | .audit => "Perform a comprehensive audit of a contract."
  | .validate => "Quickly validate contract syntax."
  | .parse => "Parse a contract and print the AST tree."
  | .stats => "Print definition counts."

end Command

/-- The options before a command. -/
inductive GlobalKey where
  | help
  | version
  | verbose
deriving DecidableEq, Repr

def globalOptions : List (OptionSpec GlobalKey) :=
  [⟨.help, ["-h", "--help"], .help⟩, ⟨.version, ["--version"], .version⟩,
   ⟨.verbose, ["-v", "--verbose"], .flag⟩]

/-- The options of commands. -/
inductive CommandKey where
  | help
  | output
  | ast
  | noColor
  | config
  | disable
  | failOn
  | format
  | vulnerabilities
  | callGraph
  | dataFlow
deriving DecidableEq, Repr

def helpOption : OptionSpec CommandKey :=
  ⟨.help, ["-h", "--help"], .help⟩

def reportOptions : List (OptionSpec CommandKey) :=
  [⟨.output, ["-o", "--output"], .value []⟩, ⟨.ast, ["--ast"], .flag⟩,
   ⟨.noColor, ["--no-color"], .flag⟩, ⟨.config, ["--config"], .value []⟩,
   ⟨.disable, ["--disable"], .value []⟩,
   ⟨.failOn, ["--fail-on"], .value (RiskLevel.all.map RiskLevel.label)⟩]

def Command.options : Command → List (OptionSpec CommandKey)
  | .analyze =>
      helpOption :: reportOptions ++
      [⟨.format, ["-f", "--format"], .value ["console", "json"]⟩,
       ⟨.vulnerabilities, ["--vulnerabilities"], .flag⟩, ⟨.callGraph, ["--call-graph"], .flag⟩,
       ⟨.dataFlow, ["--data-flow"], .flag⟩]
  | .audit => helpOption :: reportOptions
  | .validate => [helpOption]
  | .parse => [helpOption, ⟨.noColor, ["--no-color"], .flag⟩]
  | .stats => [helpOption]

/-- The formats of a report. -/
inductive Format where
  | console
  | json
deriving DecidableEq, Repr

/-- A command with its options. -/
structure Request where
  command : Command
  file : String
  verbosity : Nat := 0
  output : Option (Setting String) := none
  showsTree : Bool := false
  noColor : Bool := false
  config : Option (Setting String) := none
  /-- The checkers disabled beside those of the configuration. -/
  disabled : List (Setting String) := []
  /-- The name of the level of failure, in place of that of the configuration. -/
  failOn : Option (Setting String) := none
  format : Setting Format := .value .console
  showsVulnerabilities : Bool := false
  showsCallGraph : Bool := false
  showsDataFlow : Bool := false
deriving DecidableEq, Repr

def Request.set (request : Request) (given : Given CommandKey) : Request :=
  match given.1.key, given.2 with
  | .output, some path => { request with output := some path }
  | .ast, _ => { request with showsTree := true }
  | .noColor, _ => { request with noColor := true }
  | .config, some path => { request with config := some path }
  | .disable, some name => { request with disabled := request.disabled ++ [name] }
  | .failOn, some level => { request with failOn := some level }
  | .format, some name =>
      { request with format := name.map fun text => if text = "json" then .json else .console }
  | .vulnerabilities, _ => { request with showsVulnerabilities := true }
  | .callGraph, _ => { request with showsCallGraph := true }
  | .dataFlow, _ => { request with showsDataFlow := true }
  | _, _ => request

/-- What a command line asks for. Help and errors of a command name the command. -/
inductive Invocation where
  | help (command : Option Command)
  | version
  | missingCommand
  | refused (command : Option Command) (error : UsageError)
  | run (request : Request)
deriving DecidableEq, Repr

def Invocation.ofStop (command : Option Command) : Stop → Invocation
  | .help => .help command
  | .version => .version
  | .refused error => .refused command error

def readCommand (command : Command) (words : List String) :
    Except Stop (Reading CommandKey) := do
  let marked ← markWords command.options words
  let reading ← readWithOperand command.options marked.length { } marked
  if reading.operand.isNone then throw (.refused (.required "file"))
  pure reading

/-- What a command asks for, after the options before it and the words left over there. -/
def invocationOf (command : Command) (verbosity : Nat) (leftover words : List String) :
    Invocation :=
  match readCommand command words with
  | .error stop => .ofStop (some command) stop
  | .ok reading =>
      let unread := leftover ++ reading.leftover
      if !unread.isEmpty then .refused none (.unrecognized unread)
      else
        .run (reading.given.foldl Request.set
          { command, file := reading.operand.getD "", verbosity })

def readGlobal (words : List String) : Except Stop (Reading GlobalKey) := do
  let marked ← markWords globalOptions words
  readUpToOperand globalOptions marked.length { } marked

def Invocation.ofWords (words : List String) : Invocation :=
  match readGlobal words with
  | .error stop => .ofStop none stop
  | .ok reading =>
      match reading.operand with
      | none =>
          if reading.leftover.isEmpty then .missingCommand
          else .refused none (.unrecognized reading.leftover)
      | some name =>
          match Command.all.find? fun command => command.label = name with
          | none =>
              .refused none (.invalidChoice "<command>" name (Command.all.map Command.label))
          | some command =>
              let verbosity := reading.given.countP fun given => given.1.key = .verbose
              invocationOf command verbosity reading.leftover reading.remainder

def programName (command : Option Command) : String :=
  match command with
  | none => "clarity-audit"
  | some command => s!"clarity-audit {command.label}"

def usage (command : Option Command) : String :=
  match command with
  | none => "usage: clarity-audit [-h] [--version] [-v] <command> ...\n"
  | some command =>
      let options := command.options.map fun spec => s!"[{spec.title}]"
      let listed := " ".intercalate options
      s!"usage: {programName (some command)} {listed} file\n"

def helpText (command : Option Command) : String :=
  match command with
  | some named => usage command ++ "\n" ++ named.description ++ "\n"
  | none =>
      let lines := Command.all.map fun named => s!"  {named.label}: {named.description}\n"
      usage none ++
        "\nStatic analysis and security auditing for Clarity smart contracts.\n\ncommands:\n" ++
        String.join lines

end ContractAudit.CommandLine
