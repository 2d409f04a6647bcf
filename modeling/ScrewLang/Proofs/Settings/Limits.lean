import ScrewLang.Command.Run
import ScrewLang.Proofs.Settings.Lookup
import ScrewLang.Proofs.Text.Numerals

/-!
# Which limit is in force

A limit can be given in three places, and the first that gives a number decides, also if that number
is zero and switches the limit off. A place that is empty, or holds something that is no numeral,
leaves the decision to the next. The environment and the settings file differ in one point only:
in the former no underscores may group the digits.
-/

namespace ScrewLang

namespace Limit

section Places

variable {flag : Option Nat} {inherited entry : Option String} {limit : Option Nat} {n : Nat}

/-! ### Numbers written down -/

theorem ofNat_ne_some_zero (n : Nat) : ofNat n ≠ some 0 := by
  unfold ofNat
  split
  · simp
  · simpa using ‹n ≠ 0›

/-- A settings value is a limit if it is a numeral without its underscores. -/
theorem parse?_eq_some_iff {text : String} :
    parse? text = some limit ↔
      ∃ n, Numeral.Denotes ((Text.trim text.toList).filter (· != '_')) n ∧ limit = ofNat n := by
  simp only [parse?, ungroup, Option.map_eq_some_iff, Numeral.parse?_eq_some_iff,
    eq_comm (a := limit)]

theorem ofVariable?_eq_some_iff {value : String} :
    ofVariable? value = some n ↔ Numeral.Denotes (Text.trim value.toList) n :=
  Numeral.parse?_eq_some_iff

/-- Without underscores there is nothing to ungroup. -/
theorem parse?_of_not_mem {text : String} (h : '_' ∉ text.toList) :
    parse? text = (ofVariable? text).map ofNat := by
  have hnone : ungroup (Text.trim text.toList) = Text.trim text.toList := by
    rw [ungroup, List.filter_eq_self]
    intro c hc
    rw [bne_iff_ne]
    rintro rfl
    exact h (Text.mem_of_mem_trim hc)
  rw [parse?, hnone, ofVariable?]

/-- Digits that are worth the bound or more are no limit. -/
theorem parse?_of_large {digits : List Char} (hd : ∀ c ∈ digits, c.isDigit = true)
    (h : Numeral.bound ≤ Nat.ofDigitChars 10 digits 0) : parse? (String.ofList digits) = none := by
  have hbare : (Text.trim digits).filter (· != '_') = digits := by
    rw [Text.trim_of_no_blank fun c hc => Numeral.not_blank_of_isDigit (hd c hc),
      List.filter_eq_self]
    intro c hc
    rw [bne_iff_ne]
    rintro rfl
    simpa using hd '_' hc
  rw [Option.eq_none_iff_forall_ne_some]
  intro limit hl
  obtain ⟨n, hn, -⟩ := parse?_eq_some_iff.mp hl
  rw [String.toList_ofList, hbare] at hn
  have hdecimal := hn.decimal hd
  have hvalue := hdecimal.value
  have hbound := hdecimal.bounded
  omega

/-! ### Three places -/

/-- The number that the environment gives. -/
def Inherits (inherited : Option String) (n : Nat) : Prop :=
  ∃ value, inherited = some value ∧ Numeral.Denotes (Text.trim value.toList) n

/-- The number that an entry of the settings file gives. -/
def Configures (entry : Option String) (n : Nat) : Prop :=
  ∃ value, entry = some value ∧ Numeral.Denotes ((Text.trim value.toList).filter (· != '_')) n

/-- The limit that the first number given decides, from the command line, the environment and an
entry of the settings file. -/
inductive Decided (flag : Option Nat) (inherited entry : Option String) : Option Nat → Prop
  | byFlag {n : Nat} (given : flag = some n) : Decided flag inherited entry (ofNat n)
  | byEnvironment {n : Nat} (noFlag : flag = none) (given : Inherits inherited n) :
      Decided flag inherited entry (ofNat n)
  | bySettings {n : Nat} (noFlag : flag = none) (noVariable : ∀ m, ¬Inherits inherited m)
      (given : Configures entry n) : Decided flag inherited entry (ofNat n)
  | byNothing (noFlag : flag = none) (noVariable : ∀ m, ¬Inherits inherited m)
      (noEntry : ∀ m, ¬Configures entry m) : Decided flag inherited entry none

theorem bind_ofVariable?_eq_some_iff :
    inherited.bind ofVariable? = some n ↔ Inherits inherited n := by
  simp only [Option.bind_eq_some_iff, ofVariable?_eq_some_iff, Inherits]

theorem bind_parse?_eq_some_iff :
    entry.bind parse? = some limit ↔ ∃ n, Configures entry n ∧ limit = ofNat n := by
  simp only [Option.bind_eq_some_iff, parse?_eq_some_iff, Configures]
  constructor
  · rintro ⟨value, hv, n, hn, hl⟩
    exact ⟨n, ⟨value, hv, hn⟩, hl⟩
  · rintro ⟨n, ⟨value, hv, hn⟩, hl⟩
    exact ⟨value, hv, n, hn, hl⟩

/-- Picking a limit obeys the decision. -/
theorem Decided.pick_eq (h : Decided flag inherited entry limit) :
    pick flag inherited ((entry.bind parse?).getD none) = limit := by
  have habsent : (∀ m, ¬Inherits inherited m) → inherited.bind ofVariable? = none := by
    intro hnone
    rw [Option.eq_none_iff_forall_ne_some]
    exact fun m hm => hnone m (bind_ofVariable?_eq_some_iff.mp hm)
  cases h with
  | byFlag given => rw [given]; rfl
  | byEnvironment noFlag given =>
    rw [pick, noFlag, bind_ofVariable?_eq_some_iff.mpr given]
    rfl
  | @bySettings n noFlag noVariable given =>
    have hentry : entry.bind parse? = some (ofNat n) :=
      bind_parse?_eq_some_iff.mpr ⟨n, given, rfl⟩
    rw [pick, noFlag, habsent noVariable, hentry]
    rfl
  | byNothing noFlag noVariable noEntry =>
    have hentry : entry.bind parse? = none := by
      rw [Option.eq_none_iff_forall_ne_some]
      intro limit hl
      obtain ⟨n, hn, -⟩ := bind_parse?_eq_some_iff.mp hl
      exact noEntry n hn
    rw [pick, noFlag, habsent noVariable, hentry]
    rfl

/-- One of the three places decides, or none of them gives a number. -/
theorem exists_decided (flag : Option Nat) (inherited entry : Option String) :
    ∃ limit, Decided flag inherited entry limit := by
  cases hflag : flag with
  | some n => exact ⟨ofNat n, .byFlag rfl⟩
  | none =>
    by_cases hvariable : ∃ n, Inherits inherited n
    · obtain ⟨n, hn⟩ := hvariable
      exact ⟨ofNat n, .byEnvironment rfl hn⟩
    · rw [not_exists] at hvariable
      by_cases hentry : ∃ n, Configures entry n
      · obtain ⟨n, hn⟩ := hentry
        exact ⟨ofNat n, .bySettings rfl hvariable hn⟩
      · rw [not_exists] at hentry
        exact ⟨none, .byNothing rfl hvariable hentry⟩

theorem pick_eq_iff :
    pick flag inherited ((entry.bind parse?).getD none) = limit ↔
      Decided flag inherited entry limit := by
  refine ⟨?_, Decided.pick_eq⟩
  rintro rfl
  obtain ⟨limit, h⟩ := exists_decided flag inherited entry
  rwa [h.pick_eq]

/-- No decision is for a limit of zero. -/
theorem Decided.ne_some_zero (h : Decided flag inherited entry limit) : limit ≠ some 0 := by
  cases h with
  | byNothing => simp
  | _ => exact ofNat_ne_some_zero _

end Places

/-! ### The limits of a run -/

/-- The two limits under which a program runs. -/
inductive Kind where
  | steps
  | time
deriving DecidableEq, Repr

namespace Kind

/-- The key of a limit in the settings file. -/
def key : Kind → Settings.Key
  | .steps => .maxSteps
  | .time => .timeout

/-- The environment variable of a limit. -/
def variableName : Kind → String
  | .steps => "SCREW_MAX_STEPS"
  | .time => "SCREW_TIMEOUT_MS"

/-- The number for a limit on the command line. -/
def flag : Kind → RunRequest → Option Nat
  | .steps, request => request.maxSteps
  | .time, request => request.timeout

/-- The limit in the settings. -/
def configured : Kind → Settings → Option Nat
  | .steps, settings => settings.maxSteps
  | .time, settings => settings.timeout

/-- The limit under which a program is run. -/
def inForce : Kind → World → RunRequest → Option Nat
  | .steps => Command.stepLimit
  | .time => Command.timeLimit

/-- The entry of a limit in the text of a settings file. -/
def entry (kind : Kind) (text : String) : Option String :=
  (Settings.Entries.parse text).get? kind.key.heading kind.key.name

/-- A limit that the settings file does not give is absent from the settings. -/
theorem configured_parse (kind : Kind) (text : String) :
    kind.configured (Settings.parse text) = ((kind.entry text).bind parse?).getD none := by
  cases kind <;> rfl

/-- A run picks its limits from the three places. -/
theorem inForce_eq (kind : Kind) (world : World) (request : RunRequest) :
    kind.inForce world request =
      pick (kind.flag request) (world.environment kind.variableName)
        (kind.configured world.settings) := by
  cases kind <;> rfl

end Kind

end Limit

/-- The text of the settings file. It is empty if no place for the file is known, or if what stands
there cannot be read or decoded. -/
def World.settingsText (world : World) : String :=
  match world.settingsPath? with
  | none => ""
  | some path =>
    match world.read path with
    | .error _ => ""
    | .ok content => (Text.decode? content).getD ""

/-- The settings in force are those of the settings file: the defaults are what an empty file
gives. -/
theorem World.settings_eq_parse (world : World) :
    world.settings = Settings.parse world.settingsText := by
  have hdefault : Settings.default = Settings.parse "" := by decide +kernel
  rw [World.settings, World.settingsText]
  cases world.settingsPath? with
  | none => exact hdefault
  | some path =>
    cases hread : world.read path with
    | error fault => simpa only [hread] using hdefault
    | ok content =>
      simp only [hread]
      cases Text.decode? content with
      | none => exact hdefault
      | some text => rfl

/-- How limits are resolved. A settings value is a limit exactly if it is, trimmed and without its
underscores, a numeral below the 64th power of two, and zero means that there is no limit; a larger
number is refused. Of the command line, the environment and the settings file the first that gives a
number decides, a zero on one of the first two switches off what the file says, and no limit is
zero. Values without underscores mean the same in the environment and in the file. A run takes its
limits from these three places, the last of them the text of the settings file. -/
theorem limits_are_resolved (kind : Limit.Kind) :
    (∀ (text : String) (limit : Option Nat), Limit.parse? text = some limit ↔
        ∃ n, Numeral.Denotes ((Text.trim text.toList).filter (· != '_')) n ∧
          limit = if n = 0 then none else some n) ∧
      (∀ digits : List Char, (∀ c ∈ digits, c.isDigit = true) →
        Numeral.bound ≤ Nat.ofDigitChars 10 digits 0 → Limit.parse? (String.ofList digits) = none) ∧
      (∀ (flag : Option Nat) (inherited : Option String) (text : String),
        let limit := Limit.pick flag inherited (kind.configured (Settings.parse text))
        (∀ other, limit = other ↔ Limit.Decided flag inherited (kind.entry text) other) ∧
          limit ≠ some 0 ∧ (flag = some 0 → limit = none) ∧
          (flag = none → Limit.Inherits inherited 0 → limit = none)) ∧
      (∀ value : String, '_' ∉ value.toList → Limit.parse? value =
        (Limit.ofVariable? value).map fun n => if n = 0 then none else some n) ∧
      ∀ (world : World) (request : RunRequest),
        world.settings = Settings.parse world.settingsText ∧
          kind.inForce world request =
            Limit.pick (kind.flag request) (world.environment kind.variableName)
              (kind.configured (Settings.parse world.settingsText)) := by
  refine ⟨?_, ?_, ?_, fun value => Limit.parse?_of_not_mem, ?_⟩
  · intro text limit
    exact Limit.parse?_eq_some_iff
  · intro digits hdigits hlarge
    exact Limit.parse?_of_large hdigits hlarge
  · intro flag inherited text limit
    have hdecided : ∀ other,
        limit = other ↔ Limit.Decided flag inherited (kind.entry text) other := by
      intro other
      rw [← Limit.pick_eq_iff, ← Limit.Kind.configured_parse]
    refine ⟨hdecided, ((hdecided limit).mp rfl).ne_some_zero, ?_, ?_⟩
    · exact fun hzero => (hdecided none).mpr (.byFlag (n := 0) hzero)
    · exact fun hflag hzero => (hdecided none).mpr (.byEnvironment (n := 0) hflag hzero)
  · intro world request
    refine ⟨world.settings_eq_parse, ?_⟩
    rw [kind.inForce_eq, world.settings_eq_parse]

/-- A signed zero in the environment switches off the step limit of the file. A grouped number there
is no numeral, so the file decides. The 64th power of two is refused. -/
theorem limits_are_resolved_zero_in_environment :
    let text := "[interpreter]\nmax_steps=9"
    let pick := fun value => Limit.pick none (some value) (Settings.parse text).maxSteps
    Limit.Inherits (some " +00\t") 0 ∧ pick " +00\t" = none ∧ pick "1_0" = some 9 ∧
      Limit.parse? (String.ofList (Nat.toDigits 10 Numeral.bound)) = none ∧
      Limit.parse? "12" = some (some 12) := by
  intro text pick
  obtain ⟨-, hlarge, hpick, hplain, -⟩ := limits_are_resolved .steps
  have hzero : Limit.Inherits (some " +00\t") 0 :=
    Limit.bind_ofVariable?_eq_some_iff.mp (by decide +kernel)
  have hgrouped : ∀ m, ¬Limit.Inherits (some "1_0") m := by
    intro m hm
    have hnone : (some "1_0").bind Limit.ofVariable? = none := by decide +kernel
    rw [Limit.bind_ofVariable?_eq_some_iff.mpr hm] at hnone
    cases hnone
  have hnine : Limit.Configures (Limit.Kind.steps.entry text) 9 := by
    refine ⟨"9", by decide +kernel, ?_⟩
    exact Numeral.parse?_eq_some_iff.mp (by decide +kernel)
  refine ⟨hzero, (hpick none (some " +00\t") text).2.2.2 rfl hzero, ?_, ?_, ?_⟩
  · exact ((hpick none (some "1_0") text).1 (some 9)).mpr (.bySettings rfl hgrouped hnine)
  · exact hlarge _ (fun c => Nat.isDigit_of_mem_toDigits (by decide) (by decide))
      (by rw [Nat.ofDigitChars_ten_toDigits])
  · rw [hplain "12" (by decide)]
    decide +kernel

end ScrewLang
