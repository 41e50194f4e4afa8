import ContractAudit.Proofs.Config.Failures
import ContractAudit.Proofs.Table
import ContractAudit.Proofs.Text.TextSet

/-!
# The JSON form of a configuration

`ofJson_toJson`: a configuration that was read is read again from its JSON form. The form depends on
which identifiers are checked and not on how they were listed, and an override that is given twice
does no more than once.
-/

namespace ContractAudit

open List

open Text (LooseText TextSet)

theorem foldl_addNew_of_subset {α : Type} [DecidableEq α] {items more : List α}
    (h : ∀ item ∈ more, item ∈ items) : more.foldl addNew items = items := by
  induction more with
  | nil => rfl
  | cons item rest ih =>
      rw [foldl_cons, addNew, if_pos (h item mem_cons_self)]
      exact ih fun other hother => h other (mem_cons_of_mem _ hother)

theorem distinct_append_of_subset {α : Type} [DecidableEq α] {items more : List α}
    (h : ∀ item ∈ more, item ∈ items) : distinct (items ++ more) = distinct items := by
  rw [distinct, foldl_append]
  exact foldl_addNew_of_subset fun item hitem => mem_distinct.mpr (h item hitem)

namespace Config

variable {α β ε : Type} {config : Config}

theorem bind_eq_ok {first : Except ε α} {next : α → Except ε β} {value : β} :
    first >>= next = .ok value ↔ ∃ found, first = .ok found ∧ next found = .ok value := by
  cases first <;> simp [bind, Except.bind]

/-! ## What was read -/

theorem readPattern_eq_ok {characters} {value : Json} {pattern : NamingPattern} :
    readPattern characters value = .ok pattern ↔
      value = .text pattern.text ∧ Regex.read characters pattern.text = .ok pattern.matcher := by
  cases value with
  | text given =>
      have hread : readPattern characters (.text given) = .ok pattern ↔
          NamingPattern.read characters given = .ok pattern := by
        simp only [readPattern]
        split <;> simp_all
      rw [hread, NamingPattern.read_eq_ok, Json.text.injEq]
      constructor
      · rintro ⟨rfl, hmatcher⟩
        exact ⟨rfl, hmatcher⟩
      · rintro ⟨rfl, hmatcher⟩
        exact ⟨rfl, hmatcher⟩
  | _ => simp [readPattern]

/-- The usual pattern names no character, so that it is read alike on every platform. -/
theorem read_kebabText (characters : String → Option Nat) :
    Regex.read characters NamingPattern.kebabText = .ok NamingPattern.kebabMatcher := by
  cbv

/-- In a configuration that was read, the pattern can be read again. -/
theorem readPattern_of_ofJson {characters} {json : Json} (h : ofJson characters json = .ok config) :
    readPattern characters (.text config.namingPattern.text) = .ok config.namingPattern := by
  cases json with
  | record fields =>
      simp only [ofJson] at h
      split at h
      · simp only [bind_eq_ok] at h
        obtain ⟨_, _, _, _, _, _, _, _, _, _, pattern, hpattern, ⟨⟩⟩ := h
        unfold readOption at hpattern
        split at hpattern
        · exact readPattern_eq_ok.mpr ⟨rfl, (readPattern_eq_ok.mp hpattern).2⟩
        · cases hpattern
          exact readPattern_eq_ok.mpr ⟨rfl, read_kebabText characters⟩
      · cases h
  | _ => cases h

/-! ## Writing and reading -/

theorem readTexts_texts (key : String) (texts : List LooseText) :
    readTexts key (.array (texts.map .text)) = .ok texts := by
  have hmap : (texts.map Json.text).mapM Json.text? = some texts := by
    induction texts with
    | nil => rfl
    | cons text rest ih => simp [mapM_cons, Json.text?, ih]
  rw [readTexts, hmap]

theorem readRisk_label (level : RiskLevel) : readRisk (.string level.label) = .ok level := by
  have hlabel : RiskLevel.ofText? level.label = some level := by cases level <;> decide +kernel
  simp [readRisk, Json.string, LooseText.toString?_ofString, hlabel]

theorem readOption_cons_self (key : LooseText) (value : Json) (rest : List (LooseText × Json))
    (fallback : α) (reader : Json → Except Failure α) :
    readOption ((key, value) :: rest) key fallback reader = reader value := by
  simp [readOption]

theorem readOption_cons_of_ne {key other : LooseText} (h : other ≠ key) (value : Json)
    (rest : List (LooseText × Json)) (fallback : α) (reader : Json → Except Failure α) :
    readOption ((other, value) :: rest) key fallback reader =
      readOption rest key fallback reader := by
  simp [readOption, h]

theorem ofJson_toJson_eq {characters} (hpattern :
      readPattern characters (.text config.namingPattern.text) = .ok config.namingPattern) :
    ofJson characters config.toJson = .ok config := by
  have hunknown : (keys.filter fun key => !keys.contains key).isEmpty = true := by decide
  have hkeys : config.toJson = .record (keys.zip [.array (config.disabledCheckers.map .text),
      .array (config.suppressedCodes.map .text), .int config.maxParameters,
      .array (config.authIdentifiers.texts.map .text), .string config.failOn.label,
      .text config.namingPattern.text]) := rfl
  rw [hkeys, ofJson, map_fst_zip (by simp [keys]), hunknown, keys]
  simp (disch := decide) only [zip_cons_cons, readOption_cons_self, readOption_cons_of_ne,
    readTexts_texts, readRisk_label, hpattern]
  show Except.ok { config with authIdentifiers := .ofList config.authIdentifiers.texts } = _
  rw [TextSet.ofList_texts]

/-- That two configurations check the same identifiers and agree in the other options. -/
def Same (config other : Config) : Prop :=
  (∀ text, text ∈ config.authIdentifiers ↔ text ∈ other.authIdentifiers) ∧
    { config with authIdentifiers := other.authIdentifiers } = other

theorem Same.eq {other : Config} (h : config.Same other) : config = other := by
  obtain ⟨hmembers, hrest⟩ := h
  rw [← hrest, ← TextSet.ext hmembers]

theorem override_override (config : Config) (disabled : List LooseText)
    (failOn : Option RiskLevel) :
    (config.override disabled failOn).override disabled failOn =
      config.override disabled failOn := by
  have hdisabled : distinct (distinct (config.disabledCheckers ++ disabled) ++ disabled) =
      distinct (config.disabledCheckers ++ disabled) := by
    rw [distinct_append_of_subset, distinct_eq_self (nodup_distinct _)]
    intro item hitem
    exact mem_distinct.mpr (mem_append_right _ hitem)
  cases hempty : disabled.isEmpty <;> cases failOn <;> simp [override, hempty, hdisabled]

/-- A configuration that was read is read again from its JSON form, and whatever configuration is
the same has the same form. An override that is applied twice does no more than once. -/
theorem ofJson_toJson {characters : String → Option Nat} {json : Json}
    (h : ofJson characters json = .ok config) :
    ofJson characters config.toJson = .ok config ∧
    (∀ other : Config, other.Same config → other.toJson = config.toJson) ∧
    ∀ (start : Config) disabled failOn,
      (start.withOverrides disabled failOn >>= (·.withOverrides disabled failOn)) =
        start.withOverrides disabled failOn := by
  refine ⟨ofJson_toJson_eq (readPattern_of_ofJson h), fun other hother => by rw [hother.eq],
    fun start disabled failOn => ?_⟩
  cases hlevel : failOn.mapM readRisk with
  | error error => simp [withOverrides, hlevel, bind, Except.bind]
  | ok level =>
      simp [withOverrides, hlevel, override_override, bind, Except.bind, pure, Except.pure]

/-- A character that has a name on some platforms only. -/
def cyrillic (name : String) : Option Nat :=
  if name = "CYRILLIC SMALL LETTER A" then some 0x430 else none

def repeating : Json :=
  .object [("disabled_checkers", .array [.string "b", .string "b"]),
    ("auth_identifiers", .array [.string "z", .string "a", .string "z"]),
    ("fail_on", .string " CritiCal\t"),
    ("naming_pattern", .string "\\N\x7bCYRILLIC SMALL LETTER A\x7d")]

def repeated : Config where
  disabledCheckers := ["b", "b"]
  authIdentifiers := .ofList ["a", "z"]
  failOn := .critical
  namingPattern := ⟨"\\N\x7bCYRILLIC SMALL LETTER A\x7d", ⟨.one (.single .exact 0x430), 1⟩,
    cyrillic, by decide +kernel⟩

theorem ofJson_toJson_repeated : ofJson cyrillic repeating = .ok repeated ∧
    ofJson cyrillic repeated.toJson = .ok repeated ∧
    ({ repeated with authIdentifiers := .ofList ["z", "a", "z"] } : Config).toJson =
      repeated.toJson := by
  have hread : ofJson cyrillic repeating = .ok repeated :=
    eq_ok_of_toOption (by decide +kernel)
  obtain ⟨hagain, hsame, -⟩ := ofJson_toJson hread
  exact ⟨hread, hagain, hsame _ ⟨fun text => by
    rw [TextSet.mem_ofList, repeated, TextSet.mem_ofList]
    grind, rfl⟩⟩

end Config

end ContractAudit
