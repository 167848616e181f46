import BaselineAudit.Command.Options
import Mathlib.Data.List.TakeDrop

/-!
# Switches on the command line

A switch is turned on where it stands among the arguments. The value of an option never is one: behind
an option that waits for its value, an argument with dashes in front is an error.

* `Command.Draft.take_failOnIssues`: what one argument does to the switch `--fail-on-issues`.
* `Command.failOnIssues_iff`: the switch is on if it stands in front of the first `--`.
-/

namespace BaselineAudit.Command

/-- What a computation with two steps gives comes from its second step. -/
theorem exists_of_bind_eq_ok {ε α β : Type} {x : Except ε α} {f : α → Except ε β} {b : β}
    (h : (x >>= f) = .ok b) : ∃ a, x = .ok a ∧ f a = .ok b := by
  cases x with
  | error e => exact absurd h (by simp [bind, Except.bind])
  | ok a => exact ⟨a, rfl, h⟩

theorem eq_ok_of_mapError_eq_ok {ε ε' α : Type} {x : Except ε α} {f : ε → ε'} {a : α}
    (h : x.mapError f = .ok a) : x = .ok a := by
  cases x with
  | error e => exact absurd h (by simp [Except.mapError])
  | ok b => exact congrArg Except.ok (Except.ok.inj h)

/-- The value of an option turns no switch on. -/
theorem Options.setValue_failOnIssues {o o' : Options} {value : String} {p : Param}
    (h : o.setValue value p = .ok o') : o'.failOnIssues = o.failOnIssues := by
  cases p with
  | lang | logLevel | json | score | a11y | failOnIssues | help | version =>
    rw [← Except.ok.inj h]
  | file | data | config | minLevel | filter | color =>
    obtain ⟨a, -, h⟩ := exists_of_bind_eq_ok h
    rw [← Except.ok.inj h]

namespace Draft

theorem once_options {d d' : Draft} {p : Param} (h : d.once p = .ok d') : d'.options = d.options := by
  unfold once at h
  split at h
  · exact absurd h (by simp)
  · rw [← Except.ok.inj h]

theorem settle_failOnIssues {d d' : Draft} (h : d.settle = .ok d') :
    d'.options.failOnIssues = d.options.failOnIssues := by
  unfold settle at h
  split at h
  · rw [Except.ok.inj h]
  · exact absurd h (by simp)
  · obtain ⟨e, he, h⟩ := exists_of_bind_eq_ok h
    obtain ⟨o, ho, h⟩ := exists_of_bind_eq_ok h
    rw [← Except.ok.inj h]
    simp only
    rw [Options.setValue_failOnIssues ho, once_options he]

theorem await_failOnIssues {d d' : Draft} {p : Param} {value : Option String}
    (h : d.await p value = .ok d') : d'.options.failOnIssues = d.options.failOnIssues := by
  obtain ⟨e, he, h⟩ := exists_of_bind_eq_ok h
  rw [← settle_failOnIssues he, ← Except.ok.inj h]

theorem setNow_failOnIssues {d d' : Draft} {p : Param} {value : String}
    (h : d.setNow p value = .ok d') : d'.options.failOnIssues = d.options.failOnIssues := by
  obtain ⟨e, he, h⟩ := exists_of_bind_eq_ok h
  rw [settle_failOnIssues h, await_failOnIssues he]

theorem takeFile_failOnIssues {d d' : Draft} {path : String} (h : d.takeFile path = .ok d') :
    d'.options.failOnIssues = d.options.failOnIssues := by
  unfold takeFile at h
  split at h
  · exact absurd h (by simp)
  · obtain ⟨e, he, h⟩ := exists_of_bind_eq_ok h
    rw [← await_failOnIssues (eq_ok_of_mapError_eq_ok he), ← Except.ok.inj h]

theorem takeText_failOnIssues {d d' : Draft} {text : String} (h : d.takeText text = .ok d') :
    d'.options.failOnIssues = d.options.failOnIssues := by
  unfold takeText at h
  split at h
  · rw [← Except.ok.inj h]
  · exact takeFile_failOnIssues h

/-- A switch turns itself on and no other. -/
theorem switch_failOnIssues {d d' : Draft} {p : Param} (h : d.switch p = .ok d') :
    d'.options.failOnIssues = (d.options.failOnIssues || p = .failOnIssues) := by
  obtain ⟨e, he, h⟩ := exists_of_bind_eq_ok h
  rw [← settle_failOnIssues (eq_ok_of_mapError_eq_ok he)]
  split at h
  · exact absurd h (by simp)
  · exact absurd h (by simp)
  · obtain ⟨f, hf, h⟩ := exists_of_bind_eq_ok h
    rw [← Except.ok.inj h, ← once_options (eq_ok_of_mapError_eq_ok hf)]
    cases p <;> simp [Options.turnOn]

/-- The switch has one name. -/
theorem eq_failOnIssues_iff {p : Param} {name : String} (h : Param.ofLong? name = some p) :
    p = .failOnIssues ↔ name = "fail-on-issues" := by
  have hname : p.long = name := by simpa using List.find?_some h
  rw [← hname]
  cases p <;> decide

/-- Of the parameters with a letter, none lets a run go on. -/
theorem takeShort_eq_ok {d d' : Draft} {cs : List Char} (h : d.takeShort cs = .ok d') : cs = [] := by
  cases cs with
  | nil => rfl
  | cons c cs =>
    rw [takeShort] at h
    split at h
    · exact absurd h (by simp)
    next p hp =>
      have hc : p.short? = some c := by simpa using List.find?_some hp
      obtain ⟨e, he, -⟩ := exists_of_bind_eq_ok h
      obtain ⟨f, -, he⟩ := exists_of_bind_eq_ok he
      cases p with
      | help | version => exact absurd he (by simp)
      | _ => exact absurd hc (by simp [Param.short?])

theorem takeLong_failOnIssues {d d' : Draft} {name : String} {value : Option String}
    (h : d.takeLong name value = .ok d') :
    d'.options.failOnIssues =
      (d.options.failOnIssues || (name = "fail-on-issues" && value = none)) := by
  unfold takeLong at h
  split at h
  · exact absurd h (by simp)
  · split at h
    · rw [setNow_failOnIssues (eq_ok_of_mapError_eq_ok h)]
      simp
    · exact absurd h (by simp)
  next p hp =>
    have hname := eq_failOnIssues_iff hp
    split at h
    next hvalue =>
      have hne : p ≠ .failOnIssues := by
        rintro rfl
        exact absurd hvalue (by decide)
      rw [await_failOnIssues (eq_ok_of_mapError_eq_ok h)]
      simp [mt hname.mpr hne]
    next =>
      rw [switch_failOnIssues h]
      simp [hname]

/-- One argument turns the switch on if it is its name. -/
theorem take_failOnIssues {d d' : Draft} {argument : String} (h : d.take argument = .ok d') :
    d'.options.failOnIssues = (d.options.failOnIssues || argument = "--fail-on-issues") := by
  have hflag : argument = "--fail-on-issues" ↔
      argument.toList = '-' :: '-' :: "fail-on-issues".toList := String.toList_inj.symm
  unfold take at h
  split at h
  next cs hcs =>
    have hflag : argument = "--fail-on-issues" ↔ cs = "fail-on-issues".toList := by
      simpa [hcs] using hflag
    split at h
    next name hspan =>
      obtain rfl : cs = name := by
        rw [List.span_eq_takeWhile_dropWhile, Prod.mk.injEq] at hspan
        rw [← hspan.1, ← List.append_nil (cs.takeWhile _), ← hspan.2, List.takeWhile_append_dropWhile]
      have hname : String.ofList cs = "fail-on-issues" ↔ cs = "fail-on-issues".toList := by
        rw [← String.toList_inj, String.toList_ofList]
      rw [takeLong_failOnIssues h]
      simp only [hflag, hname, decide_true, Bool.and_true]
    next name c value hspan =>
      -- there is no `=` in the name of the switch
      have hne : cs ≠ "fail-on-issues".toList := by
        rintro rfl
        exact absurd hspan (by simp [List.span_eq_takeWhile_dropWhile])
      rw [takeLong_failOnIssues h]
      simp only [hflag, hne, reduceCtorEq, decide_false, Bool.and_false]
  next => exact absurd (takeShort_eq_ok h) (by simp)
  next hlong _ =>
    have hne : argument ≠ "--fail-on-issues" := fun heq => hlong _ (hflag.mp heq)
    rw [takeText_failOnIssues h]
    simp [hne]

end Draft

/-- Arguments turn the switch on where they name it, up to the first `--`. -/
theorem readArguments_failOnIssues {onlyFiles : Bool} {d d' : Draft} {arguments : List String}
    (h : readArguments onlyFiles d arguments = .ok d') :
    d'.options.failOnIssues = (d.options.failOnIssues ||
      !onlyFiles && (arguments.takeWhile (· ≠ "--")).contains "--fail-on-issues") := by
  induction arguments generalizing onlyFiles d with
  | nil =>
    rw [readArguments] at h
    rw [Draft.settle_failOnIssues (eq_ok_of_mapError_eq_ok h)]
    simp
  | cons a rest ih =>
    cases onlyFiles with
    | true =>
      obtain ⟨e, he, h⟩ := exists_of_bind_eq_ok h
      rw [ih h, Draft.takeFile_failOnIssues he]
      simp
    | false =>
      rw [readArguments] at h
      split at h
      next ha =>
        rw [ih h]
        simp [ha]
      next ha =>
        obtain ⟨e, he, h⟩ := exists_of_bind_eq_ok h
        rw [ih h, Draft.take_failOnIssues he]
        simp [ha, Bool.or_assoc, eq_comm]

/-- The switch is on if it stands among the arguments, in front of the first `--`. -/
theorem failOnIssues_iff {arguments : List String} {o : Options}
    (h : Options.ofArguments arguments = .ok o) :
    o.failOnIssues = true ↔ "--fail-on-issues" ∈ arguments.takeWhile (· ≠ "--") := by
  obtain ⟨d, hd, h⟩ := exists_of_bind_eq_ok h
  obtain rfl : d.options = o := Except.ok.inj h
  rw [readArguments_failOnIssues hd]
  simp

end BaselineAudit.Command
