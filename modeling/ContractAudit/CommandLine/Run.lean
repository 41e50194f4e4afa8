import ContractAudit.Audit.Trace
import ContractAudit.CommandLine.Request
import ContractAudit.Report.Document
import ContractAudit.Report.Graphs
import ContractAudit.Report.Security

/-!
# Runs of the command line

A run is a function of the arguments, the files, the platform and the terminal: it gives an exit
code, what is written to the two output streams, and the files after it. Exit code 0 is success, 1
means errors in the contract or a vulnerability of the level of failure, and 2 means that the run
itself failed.
-/

namespace ContractAudit.CommandLine

/-- The exit codes. -/
inductive ExitCode where
  | success
  | failure
  | unusable
deriving DecidableEq, Repr

def ExitCode.number : ExitCode → Nat
  | .success => 0
  | .failure => 1
  | .unusable => 2

/-- Something written to the error stream. -/
inductive Message where
  | log (entry : LogEntry)
  | text (content : String)

/-- What a run knows of the terminal. -/
structure Terminal where
  isTerminal : Bool
  time : String
  painter : Painter

/-- The result of a command. -/
structure CommandResult where
  exitCode : ExitCode
  output : String := ""
  messages : List Message := []
  disk : Disk

namespace CommandResult

def givenUp (disk : Disk) (message : String) : CommandResult where
  exitCode := .unusable
  messages := [.log { level := .error, source := .command, message }]
  disk := disk

/-- The result of a command that fails in an unforeseen way, after other messages. -/
def unhandled (disk : Disk) (before : List Message) (message : String) : CommandResult where
  exitCode := .unusable
  messages := before ++
    [.log ⟨.error, .command, s!"Unhandled exception: {message}", true⟩]
  disk := disk

end CommandResult

def logged (entries : List LogEntry) : List Message :=
  entries.map .log

def droppedPath : String :=
  "expected str, bytes or os.PathLike object, not list"

def droppedName : String :=
  "unhashable type: 'list'"

/-- A setting as a value of an option in JSON; one that was dropped is an empty array. -/
def Setting.toJson : Setting String → Json
  | .value text => .string text
  | .dropped => .array []

def loadedConfig (platform : Platform) (disk : Disk) (request : Request) :
    Except CommandResult Config :=
  match request.config with
  | none => .ok Config.default
  | some .dropped => .error (.unhandled disk [] droppedPath)
  | some (.value path) =>
      (Config.load platform disk path).mapError fun failure =>
        match failure with
        | .refused error => .givenUp disk error.message
        | other => .unhandled disk [] other.message

def configFor (platform : Platform) (disk : Disk) (request : Request) :
    Except CommandResult Config := do
  let config ← loadedConfig platform disk request
  if request.disabled.contains .dropped then throw (.unhandled disk [] droppedName)
  let disabled := request.disabled.filterMap Setting.value?
  (config.withOverrides (disabled.map Text.LooseText.ofString)
    (request.failOn.map Setting.toJson)).mapError fun error => .givenUp disk error.message

/-- The place that a path of the command line leads to, by its text alone. -/
def placeOf (platform : Platform) (disk : Disk) (path : String) : Except PathFault Place := do
  let expanded ← platform.expandNames path
  (checkPath expanded).mapError .nul
  pure (disk.resolve expanded)

def contractPath (platform : Platform) (disk : Disk) (request : Request) :
    Except CommandResult String := do
  let place ← (placeOf platform disk request.file).mapError fun fault =>
    .unhandled disk [] fault.message
  let found ← (disk.findFile place).mapError fun fault =>
    .unhandled disk [] (fault.message place)
  if found then pure place.render
  else throw (.givenUp disk s!"contract not found: {place.render}")

def auditOf (depth : Depth) (config : Config) (disk : Disk) (path : String) :
    Except CommandResult Audit :=
  (Audit.ofFile depth config disk path).mapError fun error => .unhandled disk [] error.message

/-- The painter of a run: that of its terminal, if it has one and colours are wanted. -/
def painterFor (terminal : Terminal) (request : Request) : Painter :=
  if !request.noColor && terminal.isTerminal then terminal.painter else .plain

def failedAudit (disk : Disk) (audit : Audit) : CommandResult where
  exitCode :=
    if audit.errors.any fun error => error.code = .sourceUnreadable then .unusable else .failure
  messages := logged audit.trace ++
    .text "Parsing failed:\n" :: audit.errors.map fun error => .text
      s!"   {error.message} (Line {error.location.line}:{error.location.column})\n"
  disk := disk

/-- Writes a report to the file of a request, or gives it as output. -/
def deliver (platform : Platform) (disk : Disk) (request : Request) (before : List Message)
    (report : String) : Except CommandResult (String × Disk) :=
  match request.output with
  | none | some (.value "-") => .ok (report, disk)
  | some .dropped => .error (.unhandled disk before droppedPath)
  | some (.value path) => do
      let place ← (placeOf platform disk path).mapError fun fault =>
        .unhandled disk before fault.message
      match disk.write place report.toUTF8.toList with
      | .ok written => pure ("", written)
      | .error (fault, place) => throw (.unhandled disk before (fault.message place))

def joinSections (sections : List String) : String :=
  "\n\n".intercalate sections ++ "\n"

def analysisSections (painter : Painter) (request : Request) (path : String) (audit : Audit)
    (assessment : Assessment) : List String :=
  let console := fun painter =>
    Report.console painter path (if request.showsTree then audit.contract else none) assessment
  match request.format with
  | .dropped => [console .plain]
  | .value .json => [Report.document path assessment audit.errors audit.warnings (some 2)]
  | .value .console =>
      let asked := fun (isAsked : Bool) (part : String) => if isAsked then [part] else []
      [console painter] ++
      asked request.showsVulnerabilities
        (Report.vulnerabilities painter (decide (0 < request.verbosity))
          assessment.vulnerabilities) ++
      asked request.showsCallGraph (Report.callGraph painter assessment.callGraph) ++
      asked request.showsDataFlow (Report.dataFlow painter 5 assessment.dataFlow)

/-- The exit code of an assessment: failure exactly if some vulnerability has the level of
failure. -/
def exitCodeOf (config : Config) (assessment : Assessment) : ExitCode :=
  if (assessment.vulnerabilitiesAtLeast config.failOn).isEmpty then .success else .failure

def deliveryEntries (request : Request) : List LogEntry :=
  match request.output with
  | none | some (.value "-") | some .dropped => []
  | some (.value path) => [⟨.info, .command, s!"Report written to {path}", false⟩]

def failureEntries (config : Config) (assessment : Assessment) : List LogEntry :=
  let count := (assessment.vulnerabilitiesAtLeast config.failOn).length
  if count = 0 then []
  else
    [⟨.warning, .command,
      s!"{count} vulnerability finding(s) at or above {config.failOn.label} risk", false⟩]

def analyze (platform : Platform) (terminal : Terminal) (disk : Disk) (request : Request) :
    Except CommandResult CommandResult := do
  let config ← configFor platform disk request
  let path ← contractPath platform disk request
  let audit ← auditOf .assessment config disk path
  match audit.success, audit.assessment with
  | true, some assessment =>
      let painter := painterFor terminal request
      let report := joinSections (analysisSections painter request path audit assessment)
      let before := logged audit.trace
      let (output, written) ← deliver platform disk request before report
      pure
        { exitCode := exitCodeOf config assessment
          output := output
          messages := before ++
            logged (deliveryEntries request ++ failureEntries config assessment)
          disk := written }
  | _, _ => pure (failedAudit disk audit)

def auditSections (painter : Painter) (request : Request) (path : String) (audit : Audit)
    (assessment : Assessment) : List String :=
  [audit.parsingReport, String.ofList (List.replicate 80 '='),
   Report.console painter path (if request.showsTree then audit.contract else none) assessment,
   Report.vulnerabilities painter true assessment.vulnerabilities,
   Report.auditSummary painter assessment,
   Report.callGraph painter assessment.callGraph,
   Report.dataFlow painter assessment.dataFlow.size assessment.dataFlow]

def auditContract (platform : Platform) (terminal : Terminal) (disk : Disk) (request : Request) :
    Except CommandResult CommandResult := do
  let config ← configFor platform disk request
  let path ← contractPath platform disk request
  let audit ← auditOf .assessment config disk path
  match audit.success, audit.assessment with
  | true, some assessment =>
      let painter := painterFor terminal request
      let report := joinSections (auditSections painter request path audit assessment)
      let before := logged audit.trace
      let (output, written) ← deliver platform disk request before report
      pure
        { exitCode := exitCodeOf config assessment
          output := output
          messages := before
          disk := written }
  | _, _ => pure (failedAudit disk audit)

def validationTrace (disk : Disk) (path : String) : List LogEntry :=
  match sourceAt disk path with
  | .error _ => []
  | .ok source =>
      unknownEntries (unknownCount source) ++
        match ContractAudit.parse source with
        | .ok parsed => [parseEntry parsed.contract parsed.errors.length]
        | .error _ => []

def validate (platform : Platform) (disk : Disk) (request : Request) :
    Except CommandResult CommandResult := do
  let path ← contractPath platform disk request
  let before := logged (validationTrace disk path)
  match Validation.ofFile disk path with
  | .error error => throw (.unhandled disk before error.message)
  | .ok validation =>
      if validation.valid then
        pure
          { exitCode := .success
            output := "Syntax validation passed\n"
            messages := before
            disk := disk }
      else
        let lines := validation.errors.map fun error =>
          s!"   Line {error.line}:{error.column} - {error.message}\n"
        pure
          { exitCode := .failure
            output := String.join ("Syntax validation failed:\n" :: lines)
            messages := before
            disk := disk }

def exitCodeOfErrors (audit : Audit) : ExitCode :=
  if audit.success then .success else .failure

def parse (platform : Platform) (terminal : Terminal) (disk : Disk) (request : Request) :
    Except CommandResult CommandResult := do
  let path ← contractPath platform disk request
  let audit ← auditOf .semantic Config.default disk path
  let drawing := audit.contract.map fun contract =>
    Report.tree (painterFor terminal request) contract ++ "\n"
  pure
    { exitCode := exitCodeOfErrors audit
      output := drawing.getD ""
      messages := logged audit.trace ++
        audit.errors.map fun error => .text (error.renderIn path ++ "\n")
      disk := disk }

def stats (platform : Platform) (disk : Disk) (request : Request) :
    Except CommandResult CommandResult := do
  let path ← contractPath platform disk request
  let audit ← auditOf .semantic Config.default disk path
  if audit.contract.isNone then return failedAudit disk audit
  let metrics := audit.metrics
  pure
    { exitCode := exitCodeOfErrors audit
      output :=
        s!"Functions: {Report.functionCounts metrics}\n" ++
        s!"Constants: {metrics.constants}, Variables: {metrics.dataVars}, " ++
        s!"Maps: {metrics.maps}\n"
      messages := logged audit.trace
      disk := disk }

def perform (platform : Platform) (terminal : Terminal) (disk : Disk) (request : Request) :
    CommandResult :=
  let result := match request.command with
    | .analyze => analyze platform terminal disk request
    | .audit => auditContract platform terminal disk request
    | .validate => validate platform disk request
    | .parse => parse platform terminal disk request
    | .stats => stats platform disk request
  match result with
  | .ok result => result
  | .error result => result

/-- The result of a run. -/
structure RunResult where
  exitCode : Nat
  stdout : String
  stderr : String
  disk : Disk

/-- A message as written; entries below the level of a verbosity are left out. -/
def Message.render (terminal : Terminal) (verbosity : Nat) : Message → String
  | .text content => content
  | .log entry =>
      if (LogLevel.ofVerbosity verbosity).rank ≤ entry.level.rank then entry.render terminal.time
      else ""

def versionText : String := "clarity-audit 0.1.0\n"

def run (platform : Platform) (terminal : Terminal) (disk : Disk) (words : List String) :
    RunResult :=
  match Invocation.ofWords words with
  | .help command => ⟨0, helpText command, "", disk⟩
  | .version => ⟨0, versionText, "", disk⟩
  | .missingCommand => ⟨2, "", helpText none, disk⟩
  | .refused command error =>
      ⟨2, "", usage command ++ s!"{programName command}: error: {error.message}\n", disk⟩
  | .run request =>
      let result := perform platform terminal disk request
      ⟨result.exitCode.number, result.output,
        String.join (result.messages.map (Message.render terminal request.verbosity)),
        result.disk⟩

end ContractAudit.CommandLine
