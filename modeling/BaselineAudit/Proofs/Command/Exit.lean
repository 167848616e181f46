import BaselineAudit.Command.Run
import BaselineAudit.Proofs.Command.Arguments

/-!
# The exit status

A host answers what a run asks it for. From its answers, a run comes to a report or fails at the first
thing that it cannot read.

* `Command.HasSettings`, `Command.HasData`, `Command.HasCode`: what a run reads, and from where.
* `Command.Reports`, `Command.Fails`: the report that it comes to, and the reasons for which it fails. One
  of the two is the case (`Command.reports_or_fails`).
* `Command.audit_of_reports`, `Command.audit_of_fails`: what it gives in each case.
* `Command.Ends`: the ways in which a run ends, each with its status, and there is no other
  (`Command.exists_ends`).
* `Command.run_status`: the exit status is 1 for these failures only. It is 2 if there are issues that
  were asked to count as a failure, but also for every command line that cannot be read.
-/

namespace BaselineAudit.Command

section

variable (host : Host Id) (o : Options)

/-! ## What a run reads -/

/-- The settings of a run: those of the file that was named, or else those of the project. -/
inductive HasSettings : Settings → Prop
  | named {path : String} {s : Settings} (hconfig : o.config = some path)
      (hfile : Settings.ofFile path (host.read path) = .ok s) :
      HasSettings (s.below (Path.parent path))
  | project {directory : String} (hconfig : o.config = none) (hdirectory : host.directory = .ok directory) :
      HasSettings (.ofProject directory (host.read (Settings.fileIn directory)))

/-- The environment names no data set. -/
def NoVariable : Prop := host.env dataVariable = none ∨ host.env dataVariable = some ""

/-- The path of the data set: the one that was named, else that of the environment, else that of the
settings. -/
inductive HasData (s : Settings) : String → Prop
  | named {path : String} (hdata : o.data = some path) : HasData s path
  | environment {path : String} (hdata : o.data = none)
      (henv : host.env dataVariable = some path) (hne : path ≠ "") : HasData s path
  | settings {path : String} (hdata : o.data = none) (henv : NoVariable host)
      (hpath : s.dataPath = some path) : HasData s path

/-- A path holds a data set. -/
def HasCatalog (path : String) (c : Catalog) : Prop :=
  ∃ text, (host.read path).text = .ok text ∧ Catalog.parse? text = some c

/-- A path stands for the standard input, in whichever way it is written. -/
def IsInput (path : String) : Prop := Path.steps path = Path.steps "-"

/-- The standard input is audited. -/
def AsksInput : Prop := ∀ path, o.input = some path → IsInput path

/-- The text to audit. -/
inductive HasCode : String → Prop
  | file {path text : String} (hinput : o.input = some path) (hfile : ¬IsInput path)
      (hread : (host.read path).text = .ok text) : HasCode text
  | input {text : String} (hinput : AsksInput o) (hread : Content.text host.input = .ok text) :
      HasCode text

/-- The report that a run comes to. -/
def Reports (report : Report) : Prop :=
  ∃ s path catalog code, HasSettings host o s ∧ HasData host o s path ∧ HasCatalog host path catalog ∧
    HasCode host o code ∧
    report = (Checker.ofCatalog catalog (o.threshold.getD s.threshold)).analyze code
      (languageTag o.lang code)

/-- Why a run comes to no report. -/
inductive Fails : Failure → Prop
  | noDirectory {cause : FileError} (hconfig : o.config = none)
      (hdirectory : host.directory = .error cause) : Fails (.noDirectory cause)
  | settings {path : String} {e : Settings.Error} (hconfig : o.config = some path)
      (hfile : Settings.ofFile path (host.read path) = .error e) : Fails (.settings e)
  | noData {s : Settings} (hs : HasSettings host o s) (hdata : o.data = none)
      (henv : NoVariable host) (hpath : s.dataPath = none) : Fails .noData
  | unreadableData {s : Settings} {path : String} {cause : FileError} (hs : HasSettings host o s)
      (hp : HasData host o s path) (hread : (host.read path).text = .error cause) :
      Fails (.unreadableData path cause)
  | invalidData {s : Settings} {path text : String} (hs : HasSettings host o s)
      (hp : HasData host o s path) (hread : (host.read path).text = .ok text)
      (hparse : Catalog.parse? text = none) : Fails (.invalidData path)
  | unreadable {s : Settings} {data path : String} {catalog : Catalog} {cause : FileError}
      (hs : HasSettings host o s) (hp : HasData host o s data) (hc : HasCatalog host data catalog)
      (hinput : o.input = some path) (hfile : ¬IsInput path)
      (hread : (host.read path).text = .error cause) : Fails (.unreadable path cause)
  | unreadableInput {s : Settings} {data : String} {catalog : Catalog} {cause : FileError}
      (hs : HasSettings host o s) (hp : HasData host o s data) (hc : HasCatalog host data catalog)
      (hinput : AsksInput o) (hread : Content.text host.input = .error cause) :
      Fails (.unreadableInput cause)

/-! ## Reading -/

variable {host o}

section Steps

variable {α β : Type} {x : ExceptT Failure Id α} {f : α → ExceptT Failure Id β}

theorem run_bind_of_ok {a : α} (h : x.run = .ok a) : (x >>= f).run = (f a).run := by
  rw [ExceptT.run_bind, h]
  rfl

theorem run_bind_of_error {e : Failure} (h : x.run = .error e) : (x >>= f).run = .error e := by
  rw [ExceptT.run_bind, h]
  rfl

-- In `Id` alone, `liftM` would be found through `pure`, which is not how the steps of a run are lifted.
theorem run_liftM_bind {m : Type → Type} [Monad m] [LawfulMonad m] (a : m α)
    (f : α → ExceptT Failure m β) :
    ((liftM a : ExceptT Failure m α) >>= f).run = a >>= fun x => (f x).run :=
  ExceptT.run_bind_lift a f

theorem id_bind (a : Id α) (g : α → Id β) : a >>= g = g a := rfl

end Steps

theorem readSettings_of_hasSettings {s : Settings} (h : HasSettings host o s) :
    (readSettings host o).run = .ok s := by
  unfold readSettings
  cases h with
  | named hconfig hfile =>
    rw [hconfig]
    simp only
    rw [run_liftM_bind, id_bind, hfile]
    rfl
  | project hconfig hdirectory =>
    rw [hconfig]
    simp only
    rw [run_liftM_bind, id_bind, hdirectory]
    rfl

theorem readSettings_of_noDirectory {cause : FileError} (hconfig : o.config = none)
    (hdirectory : host.directory = .error cause) :
    (readSettings host o).run = .error (.noDirectory cause) := by
  unfold readSettings
  rw [hconfig]
  simp only
  rw [run_liftM_bind, id_bind, hdirectory]
  rfl

theorem readSettings_of_error {path : String} {e : Settings.Error} (hconfig : o.config = some path)
    (hfile : Settings.ofFile path (host.read path) = .error e) :
    (readSettings host o).run = .error (.settings e) := by
  unfold readSettings
  rw [hconfig]
  simp only
  rw [run_liftM_bind, id_bind, hfile]
  rfl

/-- There are settings unless a file that was named has none, or there is no directory to look in. -/
theorem hasSettings_or_fails (host : Host Id) (o : Options) :
    (∃ s, HasSettings host o s) ∨ ∃ f, Fails host o f := by
  cases hconfig : o.config with
  | none =>
    cases hdirectory : (host.directory : Except FileError String) with
    | ok directory => exact .inl ⟨_, .project hconfig hdirectory⟩
    | error cause => exact .inr ⟨_, .noDirectory hconfig hdirectory⟩
  | some path =>
    cases hfile : Settings.ofFile path (host.read path) with
    | ok s => exact .inl ⟨_, .named hconfig hfile⟩
    | error e => exact .inr ⟨_, .settings hconfig hfile⟩

theorem dataPath_of_hasData {s : Settings} {path : String} (h : HasData host o s path) :
    (dataPath host o s).run = .ok path := by
  unfold dataPath
  cases h with
  | named hdata =>
    rw [hdata]
    rfl
  | environment hdata henv hne =>
    rw [hdata]
    simp only
    rw [run_liftM_bind, id_bind, henv]
    simp only
    rw [if_neg (by simpa using hne)]
    rfl
  | settings hdata henv hpath =>
    rw [hdata]
    simp only
    rw [run_liftM_bind, id_bind, hpath]
    rcases henv with henv | henv
    · rw [henv]
      rfl
    · rw [henv]
      rfl

theorem dataPath_of_none {s : Settings} (hdata : o.data = none) (henv : NoVariable host)
    (hpath : s.dataPath = none) : (dataPath host o s).run = .error .noData := by
  unfold dataPath
  rw [hdata]
  simp only
  rw [run_liftM_bind, id_bind, hpath]
  rcases henv with henv | henv
  · rw [henv]
    rfl
  · rw [henv]
    rfl

/-- A data set is named, unless neither options nor environment nor settings name one. -/
theorem hasData_or_none (host : Host Id) (o : Options) (s : Settings) :
    (∃ path, HasData host o s path) ∨ o.data = none ∧ NoVariable host ∧ s.dataPath = none := by
  cases hdata : o.data with
  | some path => exact .inl ⟨path, .named hdata⟩
  | none =>
    by_cases henv : NoVariable host
    · cases hpath : s.dataPath with
      | some path => exact .inl ⟨path, .settings hdata henv hpath⟩
      | none => exact .inr ⟨rfl, henv, rfl⟩
    · unfold NoVariable at henv
      rw [not_or] at henv
      obtain ⟨path, hpath⟩ := Option.ne_none_iff_exists'.mp henv.1
      exact .inl ⟨path, .environment hdata hpath fun h => henv.2 (h ▸ hpath)⟩

theorem readCatalog_of_hasCatalog {path : String} {c : Catalog} (h : HasCatalog host path c) :
    (readCatalog host path).run = .ok c := by
  obtain ⟨text, hread, hparse⟩ := h
  unfold readCatalog
  rw [run_liftM_bind, id_bind, hread]
  simp only
  rw [hparse]
  rfl

theorem readCatalog_of_unreadable {path : String} {cause : FileError}
    (hread : (host.read path).text = .error cause) :
    (readCatalog host path).run = .error (.unreadableData path cause) := by
  unfold readCatalog
  rw [run_liftM_bind, id_bind, hread]
  rfl

theorem readCatalog_of_invalid {path text : String} (hread : (host.read path).text = .ok text)
    (hparse : Catalog.parse? text = none) :
    (readCatalog host path).run = .error (.invalidData path) := by
  unfold readCatalog
  rw [run_liftM_bind, id_bind, hread]
  simp only
  rw [hparse]
  rfl

theorem same_inputPath_iff {path : String} : Path.same path inputPath = true ↔ IsInput path :=
  beq_iff_eq

theorem readCode_of_asksInput (h : AsksInput o) :
    (readCode host o).run = (readCode.readInput host).run := by
  unfold readCode
  cases hinput : o.input with
  | none => rfl
  | some path => exact congrArg ExceptT.run (if_pos (same_inputPath_iff.mpr (h path hinput)))

theorem readCode_of_hasCode {code : String} (h : HasCode host o code) :
    (readCode host o).run = .ok code := by
  cases h with
  | file hinput hfile hread =>
    unfold readCode
    rw [hinput]
    simp only
    rw [if_neg (mt same_inputPath_iff.mp hfile), run_liftM_bind, id_bind, hread]
    rfl
  | input hinput hread =>
    rw [readCode_of_asksInput hinput]
    unfold readCode.readInput
    rw [run_liftM_bind, id_bind, hread]
    rfl

theorem readCode_of_unreadable {path : String} {cause : FileError} (hinput : o.input = some path)
    (hfile : ¬IsInput path) (hread : (host.read path).text = .error cause) :
    (readCode host o).run = .error (.unreadable path cause) := by
  unfold readCode
  rw [hinput]
  simp only
  rw [if_neg (mt same_inputPath_iff.mp hfile), run_liftM_bind, id_bind, hread]
  rfl

theorem readCode_of_unreadableInput {cause : FileError} (hinput : AsksInput o)
    (hread : Content.text host.input = .error cause) :
    (readCode host o).run = .error (.unreadableInput cause) := by
  rw [readCode_of_asksInput hinput]
  unfold readCode.readInput
  rw [run_liftM_bind, id_bind, hread]
  rfl

/-! ## How a run ends -/

/-- A run comes to a report or fails. -/
theorem reports_or_fails (host : Host Id) (o : Options) :
    (∃ report, Reports host o report) ∨ ∃ f, Fails host o f := by
  rcases hasSettings_or_fails host o with ⟨s, hs⟩ | hfails
  swap
  · exact .inr hfails
  rcases hasData_or_none host o s with ⟨data, hp⟩ | ⟨hdata, henv, hpath⟩
  swap
  · exact .inr ⟨_, .noData hs hdata henv hpath⟩
  cases hread : (host.read data).text with
  | error cause => exact .inr ⟨_, .unreadableData hs hp hread⟩
  | ok text =>
    cases hparse : Catalog.parse? text with
    | none => exact .inr ⟨_, .invalidData hs hp hread hparse⟩
    | some catalog =>
      have hc : HasCatalog host data catalog := ⟨text, hread, hparse⟩
      by_cases hinput : AsksInput o
      · cases hcode : Content.text host.input with
        | error cause => exact .inr ⟨_, .unreadableInput hs hp hc hinput hcode⟩
        | ok code => exact .inl ⟨_, s, data, catalog, code, hs, hp, hc, .input hinput hcode, rfl⟩
      · simp only [AsksInput, not_forall] at hinput
        obtain ⟨path, hpath, hfile⟩ := hinput
        cases hcode : (host.read path).text with
        | error cause => exact .inr ⟨_, .unreadable hs hp hc hpath hfile hcode⟩
        | ok code => exact .inl ⟨_, s, data, catalog, code, hs, hp, hc, .file hpath hfile hcode, rfl⟩

theorem audit_of_fails {f : Failure} (h : Fails host o f) : (audit host o).run = .error f := by
  unfold audit
  cases h with
  | noDirectory hconfig hdirectory =>
    rw [run_bind_of_error (readSettings_of_noDirectory hconfig hdirectory)]
  | settings hconfig hfile => rw [run_bind_of_error (readSettings_of_error hconfig hfile)]
  | noData hs hdata henv hpath =>
    rw [run_bind_of_ok (readSettings_of_hasSettings hs),
      run_bind_of_error (dataPath_of_none hdata henv hpath)]
  | unreadableData hs hp hread =>
    rw [run_bind_of_ok (readSettings_of_hasSettings hs), run_bind_of_ok (dataPath_of_hasData hp),
      run_bind_of_error (readCatalog_of_unreadable hread)]
  | invalidData hs hp hread hparse =>
    rw [run_bind_of_ok (readSettings_of_hasSettings hs), run_bind_of_ok (dataPath_of_hasData hp),
      run_bind_of_error (readCatalog_of_invalid hread hparse)]
  | unreadable hs hp hc hinput hfile hread =>
    rw [run_bind_of_ok (readSettings_of_hasSettings hs), run_bind_of_ok (dataPath_of_hasData hp),
      run_bind_of_ok (readCatalog_of_hasCatalog hc),
      run_bind_of_error (readCode_of_unreadable hinput hfile hread)]
  | unreadableInput hs hp hc hinput hread =>
    rw [run_bind_of_ok (readSettings_of_hasSettings hs), run_bind_of_ok (dataPath_of_hasData hp),
      run_bind_of_ok (readCatalog_of_hasCatalog hc),
      run_bind_of_error (readCode_of_unreadableInput hinput hread)]

/-- A run that comes to a report says in its status whether issues count and there are any. -/
theorem audit_of_reports {report : Report} (h : Reports host o report) :
    ∃ out, (audit host o).run =
      .ok { status := if o.failOnIssues && report.hasIssues then 2 else 0, out } := by
  obtain ⟨s, path, catalog, code, hs, hp, hc, hcode, rfl⟩ := h
  unfold audit
  rw [run_bind_of_ok (readSettings_of_hasSettings hs), run_bind_of_ok (dataPath_of_hasData hp),
    run_bind_of_ok (readCatalog_of_hasCatalog hc), run_bind_of_ok (readCode_of_hasCode hcode)]
  by_cases hjson : (o.json || s.json) = true
  · rw [if_pos hjson]
    exact ⟨_, rfl⟩
  · rw [if_neg hjson]
    exact ⟨_, rfl⟩

/-! ## The status -/

section Status

variable {arguments : List String}

/-- The exit status of a run. -/
def status (host : Host Id) (arguments : List String) : Nat := (run host arguments).run.status

theorem status_of_stop {stop : Stop} (h : Options.ofArguments arguments = .error stop) :
    status host arguments = (Outcome.ofStop stop).status := by
  unfold status run
  rw [h]
  rfl

theorem status_of_fails {f : Failure} (h : Options.ofArguments arguments = .ok o)
    (hf : Fails host o f) : status host arguments = 1 := by
  unfold status run
  rw [h]
  simp only
  rw [audit_of_fails hf]
  rfl

theorem status_of_reports {report : Report} (h : Options.ofArguments arguments = .ok o)
    (hr : Reports host o report) :
    status host arguments = if o.failOnIssues && report.hasIssues then 2 else 0 := by
  obtain ⟨out, hout⟩ := audit_of_reports hr
  unfold status run
  rw [h]
  simp only
  rw [hout]
  rfl

end Status

end

section

variable (host : Host Id) (arguments : List String)

/-- Issues were asked to count as a failure. -/
def CountsIssues : Prop := "--fail-on-issues" ∈ arguments.takeWhile (· ≠ "--")

instance : Decidable (CountsIssues arguments) :=
  inferInstanceAs (Decidable ("--fail-on-issues" ∈ arguments.takeWhile (· ≠ "--")))

/-- How a run ends, and with which status. -/
inductive Ends : Nat → Prop
  /-- The command line cannot be read. -/
  | misused {e : UsageError} (h : Options.ofArguments arguments = .error (.error e)) : Ends 2
  /-- The help or the version is printed. -/
  | told (h : Options.ofArguments arguments = .error .help ∨
      Options.ofArguments arguments = .error .version) : Ends 0
  | failed {o : Options} {f : Failure} (h : Options.ofArguments arguments = .ok o)
      (hf : Fails host o f) : Ends 1
  | issues {o : Options} {report : Report} (h : Options.ofArguments arguments = .ok o)
      (hr : Reports host o report) (hcount : CountsIssues arguments) (hne : report.issues ≠ []) :
      Ends 2
  | passed {o : Options} {report : Report} (h : Options.ofArguments arguments = .ok o)
      (hr : Reports host o report) (hnil : CountsIssues arguments → report.issues = []) : Ends 0

theorem exists_ends : ∃ n, Ends host arguments n := by
  cases h : Options.ofArguments arguments with
  | error stop =>
    cases stop with
    | help => exact ⟨0, .told (.inl h)⟩
    | version => exact ⟨0, .told (.inr h)⟩
    | error e => exact ⟨2, .misused h⟩
  | ok o =>
    rcases reports_or_fails host o with ⟨report, hr⟩ | ⟨f, hf⟩
    · by_cases hnil : CountsIssues arguments → report.issues = []
      · exact ⟨0, .passed h hr hnil⟩
      · rw [Classical.not_imp] at hnil
        exact ⟨2, .issues h hr hnil.1 hnil.2⟩
    · exact ⟨1, .failed h hf⟩

variable {host arguments}

theorem Ends.status_eq {n : Nat} (h : Ends host arguments n) : status host arguments = n := by
  cases h with
  | misused h => exact status_of_stop h
  | told h =>
    rcases h with h | h
    · exact status_of_stop h
    · exact status_of_stop h
  | failed h hf => exact status_of_fails h hf
  | issues h hr hcount hne =>
    rw [status_of_reports h hr, (failOnIssues_iff h).mpr hcount]
    simp [Report.hasIssues, hne]
  | passed h hr hnil =>
    rw [status_of_reports h hr, if_neg]
    rw [Bool.and_eq_true, failOnIssues_iff h]
    rintro ⟨hcount, hissues⟩
    simp [Report.hasIssues, hnil hcount] at hissues

theorem status_eq_iff_ends {n : Nat} : status host arguments = n ↔ Ends host arguments n := by
  constructor
  · rintro rfl
    obtain ⟨n, h⟩ := exists_ends host arguments
    rwa [h.status_eq]
  · exact Ends.status_eq

/-- The status is 1 for a run that fails at what it reads, and for no other. It is 2 for a report with
issues that were asked to count as a failure, and for every command line that cannot be read, whether or
not it asks for that. It is 0 for all other runs. -/
theorem run_status (host : Host Id) (arguments : List String) :
    (status host arguments = 2 ↔
      (∃ e, Options.ofArguments arguments = .error (.error e)) ∨
      CountsIssues arguments ∧ ∃ o report, Options.ofArguments arguments = .ok o ∧
        Reports host o report ∧ report.issues ≠ []) ∧
    (status host arguments = 1 ↔
      ∃ o f, Options.ofArguments arguments = .ok o ∧ Fails host o f) ∧
    (status host arguments = 0 ↔
      Options.ofArguments arguments = .error .help ∨
      Options.ofArguments arguments = .error .version ∨
      ∃ o report, Options.ofArguments arguments = .ok o ∧ Reports host o report ∧
        (CountsIssues arguments → report.issues = [])) ∧
    status host arguments ≤ 2 := by
  simp only [status_eq_iff_ends]
  refine ⟨⟨?_, ?_⟩, ⟨?_, ?_⟩, ⟨?_, ?_⟩, ?_⟩
  · rintro (h | _ | _ | ⟨h, hr, hcount, hne⟩)
    · exact .inl ⟨_, h⟩
    · exact .inr ⟨hcount, _, _, h, hr, hne⟩
  · rintro (⟨e, h⟩ | ⟨hcount, o, report, h, hr, hne⟩)
    · exact .misused h
    · exact .issues h hr hcount hne
  · rintro (_ | _ | ⟨h, hf⟩)
    exact ⟨_, _, h, hf⟩
  · rintro ⟨o, f, h, hf⟩
    exact .failed h hf
  · rintro (_ | h | _ | _ | ⟨h, hr, hnil⟩)
    · exact h.imp_right .inl
    · exact .inr (.inr ⟨_, _, h, hr, hnil⟩)
  · rintro (h | h | ⟨o, report, h, hr, hnil⟩)
    · exact .told (.inl h)
    · exact .told (.inr h)
    · exact .passed h hr hnil
  · obtain ⟨n, h⟩ := exists_ends host arguments
    rw [h.status_eq]
    cases h <;> decide

/-- A level that does not exist ends the run with the status for issues, which nobody asked for. -/
theorem status_of_unknown_level :
    status (Surroundings.host ⟨"/", .directory [], .empty, []⟩)
      ["--data", "data.json", "--min-level", "medium"] = 2 ∧
    ¬ CountsIssues ["--data", "data.json", "--min-level", "medium"] := by
  decide +kernel

end

end BaselineAudit.Command
