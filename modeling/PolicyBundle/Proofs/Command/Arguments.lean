import PolicyBundle.Command.Arguments
import Mathlib.Data.List.Forall2

/-! What is asked for by arguments. A setting is written as a flag and, where there is one, a value, and
settings that are written one after another are all read: each flag takes the value behind it, whatever
that looks like. Of a setting that is made more than once the last counts; entrypoints and patterns add
up. -/

namespace PolicyBundle.Text

/-- A text of a number: its decimal, maybe with zeros or a plus sign in front. -/
def Spells (text : String) (n : Nat) : Prop :=
  ∃ sign zeros, (sign = [] ∨ sign = ['+']) ∧
    text.toList = sign ++ (List.replicate zeros '0' ++ Nat.toDigits 10 n)

theorem spells_decimal (n : Nat) : Spells (decimal n) n :=
  ⟨[], 0, .inl rfl, by simp [decimal]⟩

theorem digits?_toDigits (zeros n : Nat) :
    digits? (List.replicate zeros '0' ++ Nat.toDigits 10 n) = some n := by
  have hSome : (List.replicate zeros '0' ++ Nat.toDigits 10 n).isEmpty = false := by
    simp [Nat.toDigits_ne_nil]
  have hDigits : (List.replicate zeros '0' ++ Nat.toDigits 10 n).all Char.isDigit = true := by
    rw [List.all_eq_true]
    intro c hc
    rcases List.mem_append.mp hc with hZero | hDigit
    · rw [List.eq_of_mem_replicate hZero]
      decide
    · exact Nat.isDigit_of_mem_toDigits (by omega) (by omega) hDigit
  have hValue : Nat.ofDigitChars 10 (List.replicate zeros '0' ++ Nat.toDigits 10 n) 0 = n := by
    rw [Nat.ofDigitChars_append, Nat.ofDigitChars_replicate_zero, Nat.mul_zero,
      Nat.ofDigitChars_ten_toDigits]
  rw [digits?, hSome, hDigits]
  exact congrArg some hValue

/-- However a number is written, it is read if it is small enough. -/
theorem numberBelow?_of_spells {bound n : Nat} {text : String} (h : Spells text n)
    (hSmall : n < bound) : numberBelow? bound text = some n := by
  obtain ⟨sign, zeros, hSign, hText⟩ := h
  have hDigits := digits?_toDigits zeros n
  have hFits : (some n).filter (· < bound) = some n := by
    simpa using hSmall
  rw [numberBelow?, hText]
  rcases hSign with rfl | rfl
  · rw [List.nil_append]
    split
    · rename_i rest hPlus
      rw [hPlus] at hDigits
      cases hDigits
    · rw [hDigits, hFits]
  · change (digits? (List.replicate zeros '0' ++ Nat.toDigits 10 n)).filter _ = some n
    rw [hDigits, hFits]

end PolicyBundle.Text

namespace PolicyBundle.Command

/-- One thing that arguments can ask for. -/
inductive Setting where
  | source (source : SourceArgument)
  | target (name : String)
  | entrypoint (path : String)
  | bundle
  | capabilities (document : String)
  | capabilitiesVersion (version : String)
  | dialect (dialect : Policy.Dialect)
  | revision (revision : String)
  | ignore (pattern : String)
  | optimization (level : Nat)
  | prune
  | followLinks
  | erasePrints
  | debug
  | output (path : String)
  deriving DecidableEq, Repr

namespace Setting

/-- The flags of a setting. -/
def flags : Setting → List String
  | .source (.path _) => ["--source"]
  | .source (.bundleFile _) => ["--bundle-file"]
  | .target _ => ["--target"]
  | .entrypoint _ => ["--entrypoint", "-e"]
  | .bundle => ["--bundle", "-b"]
  | .capabilities _ => ["--capabilities"]
  | .capabilitiesVersion _ => ["--capabilities-version"]
  | .dialect _ => ["--rego-version"]
  | .revision _ => ["--revision"]
  | .ignore _ => ["--ignore"]
  | .optimization _ => ["--optimize", "-O"]
  | .prune => ["--prune-unused"]
  | .followLinks => ["--follow-symlinks"]
  | .erasePrints => ["--disable-print"]
  | .debug => ["--debug"]
  | .output _ => ["--output", "-o"]

/-- The names by which a dialect can be asked for. -/
def dialectNames : Policy.Dialect → List String
  | .undefined => []
  | .v0 => ["v0", "0"]
  | .v0CompatV1 => ["v0v1", "v0-compat-v1"]
  | .v1 => ["v1", "1"]

/-- A value that a flag is given for a setting, if it is given one. A document of capabilities is that
of a file. -/
def Value (files : Files.Tree) : Setting → Option String → Prop
  | .source (.path path), value => value = some path
  | .source (.bundleFile path), value => value = some path
  | .target name, value => value = some name
  | .entrypoint path, value => value = some path
  | .capabilities document, value => ∃ path, value = some path ∧ files.readText path = .ok document
  | .capabilitiesVersion version, value => value = some version
  | .dialect d, value => ∃ name ∈ dialectNames d, value = some name
  | .revision text, value => value = some text
  | .ignore pattern, value => value = some pattern
  | .optimization level, value =>
    ∃ text, value = some text ∧ Text.Spells text level ∧ level < Nat.pow 2 32
  | .output path, value => value = some path
  | .bundle, value | .prune, value | .followLinks, value | .erasePrints, value | .debug, value =>
    value = none

/-- The arguments that a setting can be written as. -/
def Written (files : Files.Tree) (setting : Setting) (group : List String) : Prop :=
  ∃ flag ∈ setting.flags, ∃ value, setting.Value files value ∧ group = flag :: value.toList

end Setting

/-- What has been read, with one more setting. -/
def Draft.apply (d : Draft) : Setting → Draft
  | .source source => { d with source := some source }
  | .target target => { d with parameters.target := target }
  | .entrypoint path =>
    { d with parameters.entrypoints := d.parameters.entrypoints ++ [path] }
  | .bundle => { d with parameters.bundleMode := true }
  | .capabilities document => { d with parameters.capabilitiesDocument := some document }
  | .capabilitiesVersion version => { d with parameters.capabilitiesVersion := some version }
  | .dialect dialect => { d with parameters.dialect := dialect }
  | .revision revision => { d with parameters.revision := some revision }
  | .ignore pattern => { d with parameters.ignore := d.parameters.ignore ++ [pattern] }
  | .optimization level => { d with parameters.optimization := level }
  | .prune => { d with parameters.prune := true }
  | .followLinks => { d with parameters.followLinks := true }
  | .erasePrints => { d with parameters.erasePrints := true }
  | .debug => { d with parameters.debug := true }
  | .output path => { d with output := path }

section Reading

variable {files : Files.Tree} {d next : Draft} {flag value : String}

/-- The flags that end the reading. -/
def endings : List String := ["--help", "-h", "--version"]

theorem readFrom_switch (hFlag : flag ∉ endings) (hSwitch : switch? d flag = some next)
    (rest : List String) : readFrom files d (flag :: rest) = readFrom files next rest := by
  simp only [endings, List.mem_cons, List.not_mem_nil, or_false, not_or] at hFlag
  obtain ⟨hHelp, hShort, hVersion⟩ := hFlag
  rw [readFrom]
  simp [hHelp, hShort, hVersion, hSwitch]

theorem readFrom_valued {valued : Valued} (hFlag : flag ∉ endings) (hNoSwitch : switch? d flag = none)
    (hValued : Valued.ofFlag? flag = some valued)
    (hSource : valued.isSource = true → d.source = none)
    (hSet : setValue files d valued value = .ok next) (rest : List String) :
    readFrom files d (flag :: value :: rest) = readFrom files next rest := by
  simp only [endings, List.mem_cons, List.not_mem_nil, or_false, not_or] at hFlag
  obtain ⟨hHelp, hShort, hVersion⟩ := hFlag
  have hFree : (valued.isSource && d.source.isSome) = false := by
    cases hIs : valued.isSource with
    | false => rfl
    | true => rw [hSource hIs]; rfl
  rw [readFrom]
  simp [hHelp, hShort, hVersion, hNoSwitch, hValued, hFree, hSet, bind, Except.bind]

end Reading

namespace Setting

/-- The kind of flag with a value that a setting is written with, unless it is a switch. -/
def valued? : Setting → Option Valued
  | .source (.path _) => some .source
  | .source (.bundleFile _) => some .bundleFile
  | .target _ => some .target
  | .entrypoint _ => some .entrypoint
  | .capabilities _ => some .capabilities
  | .capabilitiesVersion _ => some .capabilitiesVersion
  | .dialect _ => some .dialect
  | .revision _ => some .revision
  | .ignore _ => some .ignore
  | .optimization _ => some .optimize
  | .output _ => some .output
  | .bundle | .prune | .followLinks | .erasePrints | .debug => none

/-- The source of a setting, if it is the setting of one. -/
def source? : Setting → Option SourceArgument
  | .source place => some place
  | _ => none

theorem notMem_endings (s : Setting) : ∀ flag ∈ s.flags, flag ∉ endings := by
  rcases s with (_ | _) | _ <;> simp only [flags] <;> decide

theorem ofFlag?_flags (s : Setting) : ∀ flag ∈ s.flags, Valued.ofFlag? flag = s.valued? := by
  rcases s with (_ | _) | _ <;> simp only [flags, valued?] <;> decide

/-- Only the flags without a value are switches, and each does what it is there for. -/
theorem switch?_flags (d : Draft) (s : Setting) :
    ∀ flag ∈ s.flags, switch? d flag = if s.valued? = none then some (d.apply s) else none := by
  rcases s with (_ | _) | _ <;> simp [flags, valued?, switch?, Draft.apply]

theorem dialectOf?_dialectNames (d : Policy.Dialect) :
    ∀ name ∈ dialectNames d, dialectOf? name = some d := by
  cases d <;> decide

/-- There is a value exactly for a flag with one, and it is taken as it is meant. -/
theorem setValue_of_value {files : Files.Tree} {s : Setting} {value : Option String}
    (h : s.Value files value) (d : Draft) :
    (s.valued? = none ∧ value = none) ∨
      ∃ valued text, s.valued? = some valued ∧ value = some text ∧
        setValue files d valued text = .ok (d.apply s) := by
  cases s with
  | source place => cases place <;> exact .inr ⟨_, _, rfl, h, rfl⟩
  | capabilities document =>
      obtain ⟨path, hPath, hText⟩ := h
      refine .inr ⟨_, _, rfl, hPath, ?_⟩
      simp only [setValue, hText]
      rfl
  | dialect named =>
      obtain ⟨name, hName, hValue⟩ := h
      refine .inr ⟨_, _, rfl, hValue, ?_⟩
      simp only [setValue, dialectOf?_dialectNames named name hName]
      rfl
  | optimization level =>
      obtain ⟨text, hValue, hSpells, hSmall⟩ := h
      refine .inr ⟨_, _, rfl, hValue, ?_⟩
      simp only [setValue, Text.numberBelow?_of_spells hSpells hSmall]
      rfl
  | bundle | prune | followLinks | erasePrints | debug => exact .inl ⟨rfl, h⟩
  | _ => exact .inr ⟨_, _, rfl, h, rfl⟩

end Setting

/-- A setting that is written is read, and reading goes on behind it. -/
theorem readFrom_written {files : Files.Tree} {d : Draft} {s : Setting} {group : List String}
    (h : s.Written files group) (hSource : s.source?.isSome = true → d.source = none)
    (rest : List String) : readFrom files d (group ++ rest) = readFrom files (d.apply s) rest := by
  obtain ⟨flag, hFlag, value, hValue, rfl⟩ := h
  have hEnding := s.notMem_endings flag hFlag
  have hKind := s.ofFlag?_flags flag hFlag
  have hSwitch := s.switch?_flags d flag hFlag
  rcases Setting.setValue_of_value hValue d with ⟨hNone, rfl⟩ | ⟨valued, text, hValued, rfl, hSet⟩
  · rw [if_pos hNone] at hSwitch
    exact readFrom_switch hEnding hSwitch rest
  · rw [if_neg (by rw [hValued]; exact nofun)] at hSwitch
    rw [hValued] at hKind
    refine readFrom_valued hEnding hSwitch hKind (fun hIs => hSource ?_) hSet rest
    cases s with
    | source place => rfl
    | _ => cases hValued <;> cases hIs

theorem filterMap_cons_toList {α β : Type} (what : α → Option β) (a : α) (rest : List α) :
    (a :: rest).filterMap what = (what a).toList ++ rest.filterMap what := by
  rw [List.filterMap_cons]
  cases what a <;> rfl

theorem source_apply (d : Draft) (s : Setting) : (d.apply s).source = s.source?.or d.source := by
  cases s <;> rfl

/-- Settings that are written one after another are all read, in their order. -/
theorem readFrom_flatten {files : Files.Tree} {settings : List Setting} {groups : List (List String)}
    (h : List.Forall₂ (Setting.Written files) settings groups) {d : Draft}
    (hSource : d.source.toList.length + (settings.filterMap Setting.source?).length ≤ 1) :
    readFrom files d groups.flatten = (settings.foldl Draft.apply d).finish := by
  -- A second source would end the reading; there is at most one, read already or yet to come.
  induction h generalizing d with
  | nil => rw [List.flatten_nil, List.foldl_nil, readFrom]
  | @cons s group settings groups hFirst hRest ih =>
      have hStep := source_apply d s
      rw [filterMap_cons_toList, List.length_append] at hSource
      rw [List.flatten_cons, List.foldl_cons]
      cases hSome : s.source? with
      | none =>
          rw [hSome, Option.none_or] at hStep
          rw [hSome, Option.toList_none, List.length_nil, Nat.zero_add] at hSource
          have hFree : s.source?.isSome = true → d.source = none := by
            rw [hSome]
            exact nofun
          rw [readFrom_written hFirst hFree, ih (by rwa [hStep])]
      | some place =>
          rw [hSome, Option.toList_some, List.length_singleton] at hSource
          have hFree : d.source = none := by
            rw [← Option.toList_eq_nil_iff, ← List.length_eq_zero_iff]
            omega
          rw [readFrom_written hFirst fun _ => hFree, ih]
          rw [hStep, hSome, hFree, Option.or_none, Option.toList_some, List.length_singleton]
          omega

section Fields

variable {α : Type} (settings : List Setting) (d : Draft)

/-- What the last of the settings of one kind says, if there is any of them. -/
def said (what : Setting → Option α) : Option α :=
  (settings.filterMap what).getLast?

/-- A field that some settings overwrite holds what the last of them says. -/
theorem foldl_said (get : Draft → Option α) (what : Setting → Option α)
    (hStep : ∀ d s, get (Draft.apply d s) = (what s).or (get d)) :
    get (settings.foldl Draft.apply d) = (said settings what).or (get d) := by
  induction settings generalizing d with
  | nil => rfl
  | cons s settings ih =>
      rw [List.foldl_cons, ih, hStep, said, said, List.filterMap_cons]
      cases what s with
      | none => rfl
      | some value =>
          rw [List.getLast?_cons]
          cases (settings.filterMap what).getLast? <;> rfl

theorem foldl_value (get : Draft → α) (what : Setting → Option α)
    (hStep : ∀ d s, get (Draft.apply d s) = (what s).getD (get d)) :
    get (settings.foldl Draft.apply d) = (said settings what).getD (get d) := by
  have hSaid := foldl_said settings d (fun d => some (get d)) what fun d s => by
    rw [hStep, Option.or_some]
  rw [Option.or_some] at hSaid
  exact Option.some.inj hSaid

/-- A list that some settings append to has what they say, in their order. -/
theorem foldl_appended (get : Draft → List α) (what : Setting → Option α)
    (hStep : ∀ d s, get (Draft.apply d s) = get d ++ (what s).toList) :
    get (settings.foldl Draft.apply d) = get d ++ settings.filterMap what := by
  induction settings generalizing d with
  | nil => rw [List.foldl_nil, List.filterMap_nil, List.append_nil]
  | cons s settings ih =>
      rw [List.foldl_cons, ih, hStep, List.append_assoc, filterMap_cons_toList]

/-- A switch is on if it was on or is among the settings. -/
theorem foldl_switched (get : Draft → Bool) (switch : Setting)
    (hStep : ∀ d s, get (Draft.apply d s) = (decide (s = switch) || get d)) :
    get (settings.foldl Draft.apply d) = (decide (switch ∈ settings) || get d) := by
  induction settings generalizing d with
  | nil => rfl
  | cons s settings ih =>
      rw [List.foldl_cons, ih, hStep, Bool.or_left_comm, ← Bool.or_assoc]
      simp only [List.mem_cons, Bool.decide_or, eq_comm]

end Fields

namespace Setting

/-- What a setting says of the target. -/
def target? : Setting → Option String
  | .target name => some name
  | _ => none

def entrypoint? : Setting → Option String
  | .entrypoint path => some path
  | _ => none

def document? : Setting → Option String
  | .capabilities text => some text
  | _ => none

def version? : Setting → Option String
  | .capabilitiesVersion text => some text
  | _ => none

def dialect? : Setting → Option Policy.Dialect
  | .dialect d => some d
  | _ => none

def revision? : Setting → Option String
  | .revision text => some text
  | _ => none

def pattern? : Setting → Option String
  | .ignore text => some text
  | _ => none

def level? : Setting → Option Nat
  | .optimization n => some n
  | _ => none

def output? : Setting → Option String
  | .output path => some path
  | _ => none

end Setting

/-- The parameters that settings ask for, and where nothing is said the usual ones. -/
def parametersOf (settings : List Setting) : Build.Parameters where
  target := (said settings Setting.target?).getD "rego"
  capabilitiesDocument := said settings Setting.document?
  capabilitiesVersion := said settings Setting.version?
  bundleMode := Setting.bundle ∈ settings
  entrypoints := settings.filterMap Setting.entrypoint?
  debug := Setting.debug ∈ settings
  optimization := (said settings Setting.level?).getD 0
  prune := Setting.prune ∈ settings
  workDir := none
  revision := said settings Setting.revision?
  ignore := settings.filterMap Setting.pattern?
  dialect := (said settings Setting.dialect?).getD .undefined
  followLinks := Setting.followLinks ∈ settings
  erasePrints := Setting.erasePrints ∈ settings

/-- Settings that ask for a build: one source is among them. -/
structure Asks (settings : List Setting) (job : Job) : Prop where
  source : settings.filterMap Setting.source? = [job.source]
  parameters : parametersOf settings = job.parameters
  output : (said settings Setting.output?).getD "bundle.tar.gz" = job.output

/-- Of a draft that nothing has been read into, settings make what they ask for. -/
theorem foldl_start (settings : List Setting) :
    settings.foldl Draft.apply .start =
      ⟨said settings Setting.source?, parametersOf settings,
        (said settings Setting.output?).getD "bundle.tar.gz"⟩ := by
  -- Every field is overwritten, appended to or switched on, by the settings of one kind.
  have hSource := foldl_said settings .start (·.source) Setting.source? source_apply
  have hOutput := foldl_value settings .start (·.output) Setting.output?
    fun d s => by cases s <;> rfl
  have hTarget := foldl_value settings .start (·.parameters.target) Setting.target?
    fun d s => by cases s <;> rfl
  have hLevel := foldl_value settings .start (·.parameters.optimization) Setting.level?
    fun d s => by cases s <;> rfl
  have hDialect := foldl_value settings .start (·.parameters.dialect) Setting.dialect?
    fun d s => by cases s <;> rfl
  have hDocument := foldl_said settings .start (·.parameters.capabilitiesDocument)
    Setting.document? fun d s => by cases s <;> rfl
  have hVersion := foldl_said settings .start (·.parameters.capabilitiesVersion)
    Setting.version? fun d s => by cases s <;> rfl
  have hRevision := foldl_said settings .start (·.parameters.revision) Setting.revision?
    fun d s => by cases s <;> rfl
  have hEntrypoints := foldl_appended settings .start (·.parameters.entrypoints)
    Setting.entrypoint? fun d s => by cases s <;> simp [Draft.apply, Setting.entrypoint?]
  have hIgnore := foldl_appended settings .start (·.parameters.ignore) Setting.pattern?
    fun d s => by cases s <;> simp [Draft.apply, Setting.pattern?]
  have hBundle := foldl_switched settings .start (·.parameters.bundleMode) .bundle
    fun d s => by cases s <;> rfl
  have hPrune := foldl_switched settings .start (·.parameters.prune) .prune
    fun d s => by cases s <;> rfl
  have hLinks := foldl_switched settings .start (·.parameters.followLinks) .followLinks
    fun d s => by cases s <;> rfl
  have hPrints := foldl_switched settings .start (·.parameters.erasePrints) .erasePrints
    fun d s => by cases s <;> rfl
  have hDebug := foldl_switched settings .start (·.parameters.debug) .debug
    fun d s => by cases s <;> rfl
  have hWorkDir : (settings.foldl Draft.apply .start).parameters.workDir = none :=
    List.foldlRecOn (motive := fun d => d.parameters.workDir = none) settings Draft.apply rfl
      fun d hNone s _ => by cases s <;> exact hNone
  generalize settings.foldl Draft.apply .start = d at *
  obtain ⟨source, parameters, output⟩ := d
  cases parameters
  simp_all [parametersOf, Draft.start, Build.Parameters.default]

/-- The arguments of settings that ask for a build are read as asking for it. -/
theorem read_of_asks {files : Files.Tree} {settings : List Setting} {groups : List (List String)}
    {job : Job} (h : Asks settings job)
    (hWritten : List.Forall₂ (Setting.Written files) settings groups) :
    read files groups.flatten = .ok (.build job) := by
  have hSource : (Draft.start.source.toList).length +
      (settings.filterMap Setting.source?).length ≤ 1 := by
    rw [h.source]
    exact Nat.le_refl 1
  have hSaid : said settings Setting.source? = some job.source := by
    rw [said, h.source]
    rfl
  rw [read, readFrom_flatten hWritten hSource, foldl_start, hSaid, h.parameters, h.output]
  rfl

/-- A setting where it is made. -/
def settingIf (on : Bool) (s : Setting) : List Setting :=
  if on then [s] else []

/-- The settings of a build, each made once. -/
def Job.settings (job : Job) : List Setting :=
  let p := job.parameters
  List.flatten [
    [.source job.source, .target p.target, .optimization p.optimization, .output job.output],
    p.entrypoints.map .entrypoint,
    p.ignore.map .ignore,
    p.capabilitiesDocument.toList.map .capabilities,
    p.capabilitiesVersion.toList.map .capabilitiesVersion,
    p.revision.toList.map .revision,
    settingIf (p.dialect ≠ .undefined) (.dialect p.dialect),
    settingIf p.bundleMode .bundle,
    settingIf p.prune .prune,
    settingIf p.followLinks .followLinks,
    settingIf p.erasePrints .erasePrints,
    settingIf p.debug .debug]

theorem filterMap_settingIf {α : Type} (on : Bool) (s : Setting) (what : Setting → Option α) :
    (settingIf on s).filterMap what = if on then (what s).toList else [] := by
  cases on with
  | false => rfl
  | true =>
      rw [settingIf, if_pos rfl, if_pos rfl, filterMap_cons_toList, List.filterMap_nil,
        List.append_nil]

theorem mem_settingIf {on : Bool} {s other : Setting} :
    other ∈ settingIf on s ↔ on = true ∧ other = s := by
  cases on <;> simp [settingIf]

/-- The same settings in another order, entrypoints and patterns each in the same one. -/
structure Reorders (settings others : List Setting) : Prop where
  perm : settings.Perm others
  entrypoints : settings.filterMap Setting.entrypoint? = others.filterMap Setting.entrypoint?
  patterns : settings.filterMap Setting.pattern? = others.filterMap Setting.pattern?

/-- What is said once is said in every order. -/
theorem said_of_perm {α : Type} {settings others : List Setting} (hPerm : settings.Perm others)
    {what : Setting → Option α} {value : Option α} (hOnce : others.filterMap what = value.toList) :
    said settings what = value := by
  have hSame := hPerm.filterMap what
  rw [hOnce] at hSame
  cases value with
  | none => rw [said, List.perm_nil.mp hSame]; rfl
  | some value => rw [said, List.perm_singleton.mp hSame]; rfl

/-- What the settings of a build say of one kind. -/
theorem filterMap_settings {α : Type} (what : Setting → Option α) (job : Job) :
    job.settings.filterMap what = List.flatten [
      (what (.source job.source)).toList,
      (what (.target job.parameters.target)).toList,
      (what (.optimization job.parameters.optimization)).toList,
      (what (.output job.output)).toList,
      job.parameters.entrypoints.filterMap fun path => what (.entrypoint path),
      job.parameters.ignore.filterMap fun pattern => what (.ignore pattern),
      job.parameters.capabilitiesDocument.toList.filterMap fun text => what (.capabilities text),
      job.parameters.capabilitiesVersion.toList.filterMap fun text => what (.capabilitiesVersion text),
      job.parameters.revision.toList.filterMap fun text => what (.revision text),
      if job.parameters.dialect = .undefined then []
        else (what (.dialect job.parameters.dialect)).toList,
      if job.parameters.bundleMode then (what .bundle).toList else [],
      if job.parameters.prune then (what .prune).toList else [],
      if job.parameters.followLinks then (what .followLinks).toList else [],
      if job.parameters.erasePrints then (what .erasePrints).toList else [],
      if job.parameters.debug then (what .debug).toList else []] := by
  simp [Job.settings, filterMap_settingIf, List.filterMap_map, filterMap_cons_toList]

/-- The settings of a build ask for it in every order. -/
theorem asks_of_reorders {settings : List Setting} {job : Job} (h : Reorders settings job.settings)
    (hWorkDir : job.parameters.workDir = none) : Asks settings job := by
  have hSource : settings.filterMap Setting.source? = [job.source] := by
    have hSame := h.perm.filterMap Setting.source?
    have hOnce : job.settings.filterMap Setting.source? = [job.source] := by
      simp [filterMap_settings, Setting.source?]
    rw [hOnce] at hSame
    exact List.perm_singleton.mp hSame
  have hOutput : said settings Setting.output? = some job.output :=
    said_of_perm h.perm (by simp [filterMap_settings, Setting.output?])
  have hTarget : said settings Setting.target? = some job.parameters.target :=
    said_of_perm h.perm (by simp [filterMap_settings, Setting.target?])
  have hLevel : said settings Setting.level? = some job.parameters.optimization :=
    said_of_perm h.perm (by simp [filterMap_settings, Setting.level?])
  have hDialect : said settings Setting.dialect? =
      if job.parameters.dialect = .undefined then none else some job.parameters.dialect :=
    said_of_perm h.perm (by
      simp only [filterMap_settings, Setting.dialect?]
      split <;> simp)
  have hDocument : said settings Setting.document? = job.parameters.capabilitiesDocument :=
    said_of_perm h.perm (by simp [filterMap_settings, Setting.document?])
  have hVersion : said settings Setting.version? = job.parameters.capabilitiesVersion :=
    said_of_perm h.perm (by simp [filterMap_settings, Setting.version?])
  have hRevision : said settings Setting.revision? = job.parameters.revision :=
    said_of_perm h.perm (by simp [filterMap_settings, Setting.revision?])
  have hEntrypoints : settings.filterMap Setting.entrypoint? = job.parameters.entrypoints := by
    rw [h.entrypoints]
    simp [filterMap_settings, Setting.entrypoint?]
  have hPatterns : settings.filterMap Setting.pattern? = job.parameters.ignore := by
    rw [h.patterns]
    simp [filterMap_settings, Setting.pattern?]
  have hSwitches (s : Setting) : s ∈ settings ↔ s ∈ job.settings := h.perm.mem_iff
  refine ⟨hSource, ?_, by rw [hOutput]; rfl⟩
  have hDialectOf : (if job.parameters.dialect = .undefined then none
      else some job.parameters.dialect).getD .undefined = job.parameters.dialect := by
    split
    · rename_i hUndefined
      exact hUndefined.symm
    · rfl
  rw [parametersOf, hTarget, hLevel, hDialect, hDialectOf, hDocument, hVersion, hRevision,
    hEntrypoints, hPatterns, ← hWorkDir]
  simp [hSwitches, Job.settings, mem_settingIf]

/-- Parameters that arguments can ask for: a document of capabilities has to be that of a file, and no
flag names a directory for work files. -/
structure Expressible (files : Files.Tree) (p : Build.Parameters) : Prop where
  level : p.optimization < Nat.pow 2 32
  document : ∀ text ∈ p.capabilitiesDocument, ∃ path, files.readText path = .ok text
  noWorkDir : p.workDir = none

theorem exists_written {files : Files.Tree} {job : Job} (h : Expressible files job.parameters)
    {s : Setting} (hMem : s ∈ job.settings) : ∃ group, s.Written files group := by
  have hFlag : ∃ flag, flag ∈ s.flags := by
    rcases s with (_ | _) | _ <;> exact ⟨_, List.mem_cons_self⟩
  have hValue : ∃ value, s.Value files value := by
    cases s with
    | source place => cases place <;> exact ⟨_, rfl⟩
    | capabilities text =>
        have hText : job.parameters.capabilitiesDocument = some text := by
          simpa [Job.settings, mem_settingIf] using hMem
        obtain ⟨path, hRead⟩ := h.document text hText
        exact ⟨some path, path, rfl, hRead⟩
    | dialect d =>
        have hSaid : job.parameters.dialect ≠ .undefined ∧ d = job.parameters.dialect := by
          simpa [Job.settings, mem_settingIf] using hMem
        cases d with
        | undefined => exact absurd hSaid.2.symm hSaid.1
        | v0 | v0CompatV1 | v1 => exact ⟨_, _, List.mem_cons_self, rfl⟩
    | optimization level =>
        have hLevel : level = job.parameters.optimization := by
          simpa [Job.settings, mem_settingIf] using hMem
        exact ⟨_, Text.decimal level, rfl, Text.spells_decimal level, hLevel ▸ h.level⟩
    | _ => exact ⟨_, rfl⟩
  obtain ⟨flag, hFlag⟩ := hFlag
  obtain ⟨value, hValue⟩ := hValue
  exact ⟨_, flag, hFlag, value, hValue, rfl⟩

theorem exists_groups {files : Files.Tree} {settings : List Setting}
    (h : ∀ s ∈ settings, ∃ group, s.Written files group) :
    ∃ groups, List.Forall₂ (Setting.Written files) settings groups := by
  induction settings with
  | nil => exact ⟨[], .nil⟩
  | cons s settings ih =>
      obtain ⟨hFirst, hRest⟩ := List.forall_mem_cons.mp h
      obtain ⟨group, hGroup⟩ := hFirst
      obtain ⟨groups, hGroups⟩ := ih hRest
      exact ⟨group :: groups, .cons hGroup hGroups⟩

end PolicyBundle.Command
