import ContractAudit.Proofs.CommandLine.Verdict

/-!
# Contracts that cannot be decoded

A contract file that is there but is not UTF-8 holds no contract. `analyze`, `audit` and `stats` end
with the exit code of a run that failed, as every command does where there is no file. `validate`
and `parse` end with the exit code of a contract with errors.
-/

namespace ContractAudit.CommandLine

open Config

variable {platform : Platform} {disk : Disk} {request : Request} {config : Config} {path : String}
    (terminal : Terminal)

theorem exitCode_perform_missing {place : Place}
    (hconfig : configFor platform disk request = .ok config)
    (hplace : placeOf platform disk request.file = .ok place)
    (hmissing : disk.findFile place = .ok false) :
    (perform platform terminal disk request).exitCode = .unusable := by
  have hpath : ∃ result, contractPath platform disk request = .error result ∧
      result.exitCode = .unusable := by
    rw [contractPath, hplace]
    show ∃ result, Except.bind (Except.mapError _ (disk.findFile place)) _ = _ ∧ _
    rw [hmissing]
    exact ⟨_, rfl, rfl⟩
  obtain ⟨result, hpath, hcode⟩ := hpath
  rw [← hcode, perform]
  cases request.command <;>
    simp only [analyze, auditContract, validate, parse, stats, hconfig, hpath, bind, Except.bind]

/-- How a command ends whose file cannot be read. -/
theorem exitCode_perform_unreadable {error : SourceError}
    (hconfig : configFor platform disk request = .ok config)
    (hpath : contractPath platform disk request = .ok path)
    (hsource : readSource disk path = .ok (.error error)) :
    (perform platform terminal disk request).exitCode =
      if request.command = .validate ∨ request.command = .parse then .failure else .unusable := by
  have haudit (depth : Depth) (config : Config) :
      auditOf depth config disk path = .ok (.unreadable error) := by
    rw [auditOf, Audit.ofFile, hsource]
    rfl
  have hvalidation : Validation.ofFile disk path = .ok (.unreadable error) := by
    rw [Validation.ofFile, hsource]
    rfl
  rw [perform]
  cases request.command <;>
    simp only [analyze, auditContract, validate, parse, stats, hconfig, hpath, haudit, hvalidation,
      bind, Except.bind, pure, Except.pure] <;> rfl

/-- A run of a command on a contract file that is there and is not UTF-8. -/
structure Undecodable where
  platform : Platform
  terminal : Terminal
  disk : Disk
  words : List String
  request : Request
  config : Config
  path : String
  bytes : List UInt8
  fault : Text.Utf8.Fault
  asked : Invocation.ofWords words = .run request
  configured : configFor platform disk request = .ok config
  found : contractPath platform disk request = .ok path
  named : '\x00' ∉ path.toList
  stored : disk.read path = .ok bytes
  invalid : Text.Utf8.decode bytes = .error fault

namespace Undecodable

variable (undecodable : Undecodable)

def exitCode : Nat :=
  (run undecodable.platform undecodable.terminal undecodable.disk undecodable.words).exitCode

theorem exitCode_eq : undecodable.exitCode = if undecodable.request.command = .validate ∨
      undecodable.request.command = .parse then 1 else 2 := by
  have hsource : readSource undecodable.disk undecodable.path =
      .ok (.error ⟨undecodable.path, .encoding undecodable.fault⟩) := by
    have hcheck : checkPath undecodable.path = .ok () := checkPath_eq_ok.mpr undecodable.named
    rw [readSource, hcheck, sourceAt, undecodable.stored]
    show Except.ok (Except.bind (Except.mapError _ (Text.Utf8.decode undecodable.bytes)) _) = _
    rw [undecodable.invalid]
    rfl
  rw [exitCode, run, undecodable.asked]
  simp only [exitCode_perform_unreadable _ undecodable.configured undecodable.found hsource]
  split <;> rfl

/-- `analyze`, `audit` and `stats` tell a file that is not UTF-8 from a contract with errors, and
`validate` and `parse` do not. All of them tell a missing file from one. -/
theorem exitCode_tells_command :
    (undecodable.exitCode = 2 ↔ undecodable.request.command ∈ [.analyze, .audit, .stats]) ∧
    (undecodable.exitCode = 1 ↔ undecodable.request.command ∈ [.validate, .parse]) ∧
    ∀ (disk : Disk) (config : Config) (place : Place),
      configFor undecodable.platform disk undecodable.request = .ok config →
      placeOf undecodable.platform disk undecodable.request.file = .ok place →
      disk.findFile place = .ok false →
      (run undecodable.platform undecodable.terminal disk undecodable.words).exitCode = 2 := by
  refine ⟨?_, ?_, fun disk config place hconfig hplace hmissing => ?_⟩
  · rw [exitCode_eq]
    cases undecodable.request.command <;> decide
  · rw [exitCode_eq]
    cases undecodable.request.command <;> decide
  · rw [run, undecodable.asked]
    simp only [exitCode_perform_missing _ hconfig hplace hmissing]
    rfl

def strayDisk : Disk :=
  ⟨["home"], ⟨[(["home", "stray"], .file [0xff])], by simp⟩⟩

def ofStray (command : Command) (words : List String)
    (asked : Invocation.ofWords words = .run { command, file := "stray" }) : Undecodable where
  platform := .bare
  terminal := ⟨false, "00:00:00", .plain⟩
  disk := strayDisk
  words := words
  request := { command, file := "stray" }
  config := Config.default
  path := "/home/stray"
  bytes := [0xff]
  fault := ⟨0, 0xff, 1, .invalidStart⟩
  asked := asked
  configured := eq_ok_of_toOption (by cases command <;> decide +kernel)
  found := by
    have hplace : placeOf .bare strayDisk "stray" = .ok (strayDisk.resolve "stray") :=
      placeOf_eq_resolve (eq_ok_of_toOption (by decide +kernel)) (by decide)
    rw [contractPath, hplace]
    exact eq_ok_of_toOption (by cases command <;> decide +kernel)
  named := by decide
  stored := eq_ok_of_toOption (by decide +kernel)
  invalid := rfl

theorem exitCode_tells_stray :
    (run .bare ⟨false, "00:00:00", .plain⟩ strayDisk ["analyze", "stray"]).exitCode = 2 ∧
    (run .bare ⟨false, "00:00:00", .plain⟩ strayDisk ["audit", "stray"]).exitCode = 2 ∧
    (run .bare ⟨false, "00:00:00", .plain⟩ strayDisk ["parse", "stray"]).exitCode = 1 ∧
    (run .bare ⟨false, "00:00:00", .plain⟩ ⟨["home"], .empty⟩ ["parse", "stray"]).exitCode = 2 := by
  obtain ⟨_, hparse, hmissing⟩ :=
    (ofStray .parse ["parse", "stray"] (by decide +kernel)).exitCode_tells_command
  refine ⟨?_, ?_, hparse.mpr (by decide), ?_⟩
  · exact (ofStray .analyze _ (by decide +kernel)).exitCode_tells_command.1.mpr (by decide)
  · exact (ofStray .audit _ (by decide +kernel)).exitCode_tells_command.1.mpr (by decide)
  · exact hmissing ⟨["home"], .empty⟩ Config.default ["home", "stray"]
      (eq_ok_of_toOption (by decide +kernel))
      (placeOf_eq_resolve (eq_ok_of_toOption (by decide +kernel)) (by decide))
      (eq_ok_of_toOption (by decide +kernel))

/-- A file that is not UTF-8 ends two commands with the exit code of a contract with errors. -/
theorem exitCode_validate_stray : strayDisk.read "/home/stray" = .ok [0xff] ∧
    Text.Utf8.decode [0xff] = .error ⟨0, 0xff, 1, .invalidStart⟩ ∧
    (run .bare ⟨false, "00:00:00", .plain⟩ strayDisk ["validate", "stray"]).exitCode = 1 ∧
    (run .bare ⟨false, "00:00:00", .plain⟩ strayDisk ["parse", "stray"]).exitCode = 1 :=
  ⟨eq_ok_of_toOption (by decide +kernel), rfl,
    (ofStray .validate ["validate", "stray"] (by decide +kernel)).exitCode_eq,
    (ofStray .parse ["parse", "stray"] (by decide +kernel)).exitCode_eq⟩

end Undecodable

end ContractAudit.CommandLine
