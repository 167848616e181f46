import BaselineAudit.Accessibility
import BaselineAudit.Proofs.Terminal.Colours
import BaselineAudit.Report.Listing
import Mathlib.Algebra.GroupWithZero.Nat
import Mathlib.Algebra.Order.BigOperators.Group.List
import Mathlib.Algebra.Order.Group.Nat

/-!
# Listings without their colours

What is left of a listing without the colours, compared with the listing of the plain painter.

* `Listing.trimStart_issueLine`: the line of an issue is its position and `Listing.details`, behind
  blanks that depend on the painter.
* `Listing.unindented`: the listing of a report where no line starts with these blanks. It is what the
  colours leave of a report (`Listing.report_uncoloured`).
* `Listing.score_uncoloured`: they leave of a score, and of a check of markup, what the plain painter
  writes.
-/

namespace BaselineAudit

namespace Text

/-! ## Blanks in front of a text -/

theorem padLeft_of_le {width : Nat} {s : String} (h : width ≤ s.length) : padLeft width s = s := by
  rw [padLeft, Nat.sub_eq_zero_of_le h]
  simp

theorem length_padLeft (width : Nat) (s : String) :
    (padLeft width s).length = width - s.length + s.length := by
  simp [padLeft]

theorem isBlank_of_isDigit {c : Char} (h : c.isDigit = true) : isBlank c = false := by
  have hrange : 48 ≤ c.toNat ∧ c.toNat ≤ 57 := by
    simpa [Char.isDigit, UInt32.le_iff_toNat_le] using h
  simp only [isBlank, Bool.or_eq_false_iff, Bool.and_eq_false_iff, decide_eq_false_iff_not,
    beq_eq_false_iff_ne]
  omega

/-- A text starts with a character that is not blank. -/
def Starts (s : String) : Prop := ∃ c cs, s.toList = c :: cs ∧ isBlank c = false

/-- Trimming takes away the blanks that were put in front of a text. -/
theorem trimStart_padLeft {s : String} (h : Starts s) (width : Nat) (t : String) :
    trimStart (padLeft width s ++ t) = s ++ t := by
  obtain ⟨c, cs, hs, hc⟩ := h
  have hpad : ∀ c ∈ List.replicate (width - s.length) ' ', isBlank c = true := by
    intro c hc
    rw [List.eq_of_mem_replicate hc]
    rfl
  rw [trimStart, padLeft, String.toList_append, String.toList_append, String.toList_ofList,
    List.append_assoc, List.dropWhile_append_of_pos hpad, hs, List.cons_append,
    List.dropWhile_cons_of_neg (by simp [hc]), ← List.cons_append, ← hs, ← String.toList_append,
    String.ofList_toList]

end Text

/-! ## The texts of a listing -/

/-- The texts that the line of an issue shows. -/
def Issue.texts (i : Issue) : List String := i.property :: i.key :: (i.value.toList ++ i.lowDate.toList)

/-- The texts that the listing of a report shows. -/
def Report.texts (r : Report) : List String := r.language.tag :: r.issues.flatMap Issue.texts

/-- The texts that the listing of a score shows. -/
def Score.texts (s : Score) : List String :=
  s.issues.flatMap (·.issue.texts) ++ s.browsers ++ s.bullets

/-- The texts that the listing of a check shows. -/
def Accessibility.Report.texts (r : Accessibility.Report) : List String := r.breaches.map (·.message)

namespace Listing

open Terminal

/-! ## The line of an issue -/

/-- Where an issue is, as its line shows it. -/
def position (i : Issue) : String := (i.location.map Location.text).getD "-"

/-- The line of an issue behind its position. -/
def details (p : Painter) (i : Issue) : String :=
  "  " ++ Text.padRight 14 i.kind.name ++ " " ++ i.label ++ "  " ++ p.key i.key ++ "  " ++
    level p i.level ++ (i.lowDate.map fun date => " " ++ p.dim ("(since " ++ date ++ ")")).getD "" ++
    if i.feature.isNone then " " ++ p.dim "(unmapped)" else ""

theorem issueLine_eq (p : Painter) (i : Issue) :
    issueLine p i = Text.padLeft 8 (p.location (position i)) ++ details p i := by
  unfold issueLine details
  cases i.lowDate <;> simp [position, String.append_assoc]

theorem starts_position (i : Issue) : Text.Starts (position i) := by
  unfold position
  cases i.location with
  | none => exact ⟨ '-', [], rfl, rfl⟩
  | some l =>
    obtain ⟨c, cs, hline⟩ := List.exists_cons_of_ne_nil (Nat.toDigits_ne_nil (n := l.line) (b := 10))
    have hdigit : c.isDigit = true :=
      Nat.isDigit_of_mem_toDigits (by decide) (by decide) (hline ▸ List.mem_cons_self)
    refine ⟨c, cs ++ ':' :: l.column.repr.toList, ?_, Text.isBlank_of_isDigit hdigit⟩
    simp [Location.text, hline]

theorem plain_position (i : Issue) : Plain (position i) := by
  unfold position
  cases i.location with
  | none => decide
  | some l => simp +decide [Location.text, plain_repr]

theorem starts_location (p : Painter) (i : Issue) : Text.Starts (p.location (position i)) := by
  unfold Painter.location Painter.paint Painter.wrap
  split
  · exact ⟨ '\x1b', _, by simp [Style.start]; rfl, by decide⟩
  · exact starts_position i

/-- The painter matters for the blanks in front of a line, but trimming leaves none. -/
theorem trimStart_issueLine (p : Painter) (i : Issue) :
    Text.trimStart (issueLine p i) = p.location (position i) ++ details p i := by
  rw [issueLine_eq, Text.trimStart_padLeft (starts_location p i)]

theorem shows_level (p : Painter) (l : Level) : Shows (level p l) (level {} l) := by
  cases l <;> exact shows_paint p _ (by decide)

theorem plain_label {i : Issue} (h : ∀ t ∈ i.texts, Plain t) : Plain i.label := by
  unfold Issue.label
  cases hvalue : i.value with
  | none => exact h _ (by simp [Issue.texts])
  | some value =>
    have hproperty : Plain i.property := h _ (by simp [Issue.texts])
    have hplain : Plain value := h _ (by simp [Issue.texts, hvalue])
    simp +decide [hproperty, hplain]

theorem shows_details (p : Painter) {i : Issue} (h : ∀ t ∈ i.texts, Plain t) :
    Shows (details p i) (details {} i) := by
  have hkind : Plain (Text.padRight 14 i.kind.name) := by cases i.kind <;> decide
  have hfront : Plain ("  " ++ Text.padRight 14 i.kind.name ++ " " ++ i.label ++ "  ") := by
    simp +decide [hkind, plain_label h]
  have hkey : Plain i.key := h _ (by simp [Issue.texts])
  refine shows_self hfront
    |>.append (shows_paint p .magenta hkey)
    |>.text (by decide)
    |>.append (shows_level p i.level)
    |>.append ?_
    |>.append ?_
  · cases hdate : i.lowDate with
    | none => exact fun _ => rfl
    | some date =>
      have hplain : Plain date := h _ (by simp [Issue.texts, hdate])
      refine (shows_self (by decide)).append (shows_paint p .dim ?_)
      simp +decide [hplain]
  · split
    · exact (shows_self (by decide)).append (shows_paint p .dim (by decide))
    · exact fun _ => rfl

/-- Without blanks in front, a line shows what the plain painter writes. -/
theorem shows_trimStart_issueLine (p : Painter) {i : Issue} (h : ∀ t ∈ i.texts, Plain t) :
    Shows (Text.trimStart (issueLine p i)) (Text.trimStart (issueLine {} i)) := by
  rw [trimStart_issueLine, trimStart_issueLine]
  exact (shows_paint p .cyan (plain_position i)).append (shows_details p h)

/-! ## Reports -/

/-- Colours fill the place of the blanks in front of a line. -/
theorem issueLine_enabled (i : Issue) :
    issueLine ⟨true⟩ i = Text.trimStart (issueLine ⟨true⟩ i) := by
  -- the sequences alone have nine characters
  have hwide : 8 ≤ (Painter.location ⟨true⟩ (position i)).length := by
    have hreset : Style.reset.length = 4 := rfl
    have hstart : Style.cyan.start.length = 5 := rfl
    rw [Painter.location, Painter.paint, Painter.wrap, if_pos rfl, String.length_append,
      String.length_append, hreset, hstart]
    omega
  rw [trimStart_issueLine, issueLine_eq, Text.padLeft_of_le hwide]

/-- The last line of a report with issues. -/
def totals (p : Painter) (r : Report) : String :=
  p.number r.summary.checked.repr ++ " usages checked, " ++ p.number r.summary.below.repr ++
    " below " ++ r.threshold.name ++ "\n"

theorem report_of_ne_nil (p : Painter) {r : Report} (h : r.issues ≠ []) :
    report p r =
      title p r ++ String.join (r.issues.map fun i => issueLine p i ++ "\n") ++ totals p r := by
  simp [report, totals, h, String.append_assoc]

/-- The listing of a report by the plain painter, without the blanks in front of the lines. -/
def unindented (r : Report) : String :=
  if r.issues.isEmpty then report {} r
  else title {} r ++ String.join (r.issues.map fun i => Text.trimStart (issueLine {} i) ++ "\n") ++
    totals {} r

theorem plain_threshold (threshold : Threshold) : Plain threshold.name := by
  cases threshold <;> decide

theorem shows_title (p : Painter) {r : Report} (h : Plain r.language.tag) :
    Shows (title p r) (title {} r) := by
  have hremark : Plain ("(" ++ r.language.tag ++ ", min level " ++ r.threshold.name ++ ")") := by
    simp +decide [h, plain_threshold]
  exact shows_paint p .bold (by decide)
    |>.text (by decide)
    |>.append (shows_paint p .dim hremark)
    |>.text (by decide)

theorem shows_totals (p : Painter) (r : Report) : Shows (totals p r) (totals {} r) :=
  shows_paint p .brightCyan (plain_repr _)
    |>.text (by decide)
    |>.append (shows_paint p .brightCyan (plain_repr _))
    |>.text (by decide)
    |>.text (plain_threshold _)
    |>.text (by decide)

theorem shows_statusOk (p : Painter) {message : String} (h : Plain message) :
    Shows (p.statusOk message) (Painter.statusOk {} message) :=
  shows_paint p .green (by decide)
    |>.text (by decide)
    |>.text h

theorem plain_of_mem_issues {r : Report} (h : ∀ t ∈ r.texts, Plain t) {i : Issue} (hi : i ∈ r.issues) :
    ∀ t ∈ i.texts, Plain t := fun t ht =>
  h t (List.mem_cons_of_mem _ (List.mem_flatMap.mpr ⟨i, hi, ht⟩))

/-- Without its colours, a report is left with no blanks in front of its lines. -/
theorem shows_report {r : Report} (h : ∀ t ∈ r.texts, Plain t) :
    Shows (report ⟨true⟩ r) (unindented r) := by
  have htitle : Shows (title ⟨true⟩ r) (title {} r) := shows_title _ (h _ List.mem_cons_self)
  unfold unindented
  by_cases hnil : r.issues = []
  · have hmessage : Plain (r.summary.checked.repr ++ " usages checked, all at or above " ++
        r.threshold.name) := by
      simp +decide [plain_repr, plain_threshold]
    simp only [report, hnil, List.isEmpty_nil, if_true]
    exact htitle |>.append (shows_statusOk _ hmessage) |>.text (by decide)
  · rw [if_neg (by simpa using hnil), report_of_ne_nil _ hnil]
    refine htitle |>.append (.join_map fun i hi => ?_) |>.append (shows_totals _ r)
    rw [issueLine_enabled]
    exact (shows_trimStart_issueLine _ (plain_of_mem_issues h hi)).text (by decide)

theorem length_issueLine (i : Issue) :
    (issueLine {} i).length =
      8 - (position i).length + (Text.trimStart (issueLine {} i)).length := by
  rw [trimStart_issueLine, issueLine_eq, String.length_append, Text.length_padLeft, String.length_append]
  exact Nat.add_assoc ..

theorem trimStart_eq_of_le {i : Issue} (h : 8 ≤ (position i).length) :
    Text.trimStart (issueLine {} i) = issueLine {} i := by
  rw [trimStart_issueLine, issueLine_eq]
  exact congrArg (· ++ _) (Text.padLeft_of_le h).symm

/-- The blanks make no difference if all positions are as wide as their column. -/
theorem unindented_eq_iff {r : Report} :
    unindented r = report {} r ↔ ∀ i ∈ r.issues, 8 ≤ (position i).length := by
  by_cases hnil : r.issues = []
  · simp [unindented, hnil]
  rw [unindented, if_neg (by simpa using hnil), report_of_ne_nil _ hnil]
  constructor
  · intro heq
    by_contra! hshort
    obtain ⟨i, hi, hlt⟩ := hshort
    -- a short position makes the plain listing longer
    have hline : ∀ i, (issueLine {} i ++ "\n").length =
        8 - (position i).length + (Text.trimStart (issueLine {} i) ++ "\n").length := by
      intro i
      rw [String.length_append, String.length_append, length_issueLine, Nat.add_assoc]
    have hsum : (r.issues.map fun i => (Text.trimStart (issueLine {} i) ++ "\n").length).sum <
        (r.issues.map fun i => (issueLine {} i ++ "\n").length).sum := by
      refine List.sum_lt_sum _ _ (fun j _ => ?_) ⟨i, hi, ?_⟩
      · rw [hline j]
        omega
      · rw [hline i]
        omega
    have hlength := congrArg String.length heq
    simp only [String.length_append, String.length_join, List.map_map, Function.comp_def] at hlength hsum
    omega
  · intro hwide
    rw [List.map_congr_left fun i hi => by rw [trimStart_eq_of_le (hwide i hi)]]

/-- Without its colours, the listing of a report has the lines of the plain listing with no blanks in
front of them. It is the plain listing if and only if every position is at least as wide as its
column. -/
theorem report_uncoloured (r : Report) (h : ∀ t ∈ r.texts, Plain t) :
    bare (report ⟨true⟩ r) = unindented r ∧
    (bare (report ⟨true⟩ r) = report {} r ↔ ∀ i ∈ r.issues, 8 ≤ (position i).length) := by
  have hbare := (shows_report h).bare_eq
  refine ⟨hbare, ?_⟩
  rw [hbare]
  exact unindented_eq_iff

/-- The position `12345:17` fills its column. -/
theorem report_uncoloured_wide :
    ∃ r : Report, r.issues ≠ [] ∧ bare (report ⟨true⟩ r) = report {} r := by
  let i : Issue := ⟨.property, "gap", none, "css.properties.gap", none, .low, some "2021-04-26", none,
    some ⟨12345, 17⟩, none⟩
  let r : Report := .ofIssues .css .high [i] 1
  have hplain : ∀ t ∈ r.texts, Plain t := by decide
  have hwide : ∀ i ∈ r.issues, 8 ≤ (position i).length := by decide
  exact ⟨r, List.cons_ne_nil _ _, (report_uncoloured r hplain).2.mpr hwide⟩

/-- The position `1:17` leaves four blanks of its column, which colours do not. -/
theorem report_indented :
    ∃ r : Report, (∀ t ∈ r.texts, Plain t) ∧ bare (report ⟨true⟩ r) ≠ report {} r := by
  let i : Issue := ⟨.property, "gap", none, "css.properties.gap", some "flexbox-gap", .low,
    some "2021-04-26", none, some ⟨1, 17⟩, none⟩
  let r : Report := .ofIssues .css .high [i] 1
  have hplain : ∀ t ∈ r.texts, Plain t := by decide
  refine ⟨r, hplain, ?_⟩
  rw [(shows_report hplain).bare_eq, Ne, unindented_eq_iff]
  decide

/-! ## Scores and checks of markup -/

theorem shows_scoredLine (p : Painter) {s : ScoredIssue} (h : ∀ t ∈ s.issue.texts, Plain t) :
    Shows (scoredLine p s) (scoredLine {} s) := by
  have htag : Shows (severityTag p s.severity) (severityTag {} s.severity) := by
    cases s.severity <;> exact shows_paint p _ (by decide)
  exact htag
    |>.text (by decide)
    |>.append (shows_trimStart_issueLine p h)
    |>.text (by decide)

theorem shows_score (p : Painter) (filter : SeverityFilter) {s : Score} (h : ∀ t ∈ s.texts, Plain t) :
    Shows (score p filter s) (score {} filter s) := by
  have hissues : ∀ i ∈ s.filtered filter, ∀ t ∈ i.issue.texts, Plain t := by
    intro i hi t ht
    have hmem : t ∈ s.issues.flatMap (·.issue.texts) :=
      List.mem_flatMap.mpr ⟨i, List.mem_of_mem_filter hi, ht⟩
    exact h t (by simp only [Score.texts, List.mem_append, hmem, true_or])
  have hbrowsers : Plain (", ".intercalate s.browsers) :=
    plain_intercalate (by decide) fun t ht => h t (by simp [Score.texts, ht])
  have hcounts : Plain ("(" ++ s.errors.repr ++ " errors, " ++ s.warnings.repr ++ " warnings)") := by
    simp +decide [plain_repr]
  refine shows_paint p .bold (by decide)
    |>.text (by decide)
    |>.append (shows_paint p .brightCyan (plain_repr _))
    |>.text (by decide)
    |>.append (shows_paint p .dim hcounts)
    |>.text (by decide)
    |>.append (.join_map fun i hi => shows_scoredLine p (hissues i hi))
    |>.append ?_
    |>.append (.join_map fun b hb => ?_)
  · split
    · exact fun _ => rfl
    · exact shows_self (by simp +decide [hbrowsers])
  · have hbullet : Plain b := h b (by simp [Score.texts, hb])
    exact shows_self (by simp +decide [hbullet])

end Listing

namespace Accessibility

open Terminal

theorem shows_breachLine (p : Painter) {b : Breach} (h : Plain b.message) :
    Shows (breachLine p b) (breachLine {} b) := by
  have htag : Shows (severityTag p b.severity) (severityTag {} b.severity) := by
    cases b.severity <;> exact shows_paint p _ (by decide)
  have hname : Plain b.rule.name := by cases b.rule <;> decide
  exact htag
    |>.text (by decide)
    |>.append (shows_paint p .magenta hname)
    |>.text (by decide)
    |>.text h
    |>.text (by decide)

theorem shows_listing (p : Painter) {r : Report} (h : ∀ t ∈ r.texts, Plain t) :
    Shows (listing p r) (listing {} r) :=
  shows_paint p .bold (by decide)
    |>.text (by decide)
    |>.append (shows_paint p .brightCyan (plain_repr _))
    |>.text (by decide)
    |>.append (.join_map fun _ hb => shows_breachLine p (h _ (List.mem_map_of_mem hb)))

end Accessibility

namespace Listing

open Terminal

/-- Without its colours, the listing of a score is that of the plain painter, whatever the filter, and
so is the listing of a check of markup. -/
theorem score_uncoloured (p : Painter) (filter : SeverityFilter) (s : Score)
    (a : Accessibility.Report) :
    ((∀ t ∈ s.texts, Plain t) → bare (score p filter s) = score {} filter s) ∧
    ((∀ t ∈ a.texts, Plain t) → bare (Accessibility.listing p a) = Accessibility.listing {} a) :=
  ⟨fun h => (shows_score p filter h).bare_eq, fun h => (Accessibility.shows_listing p h).bare_eq⟩

/-- A score of two issues, of which the filter shows one, and a check with one breach. -/
theorem score_uncoloured_errors :
    ∃ s : Score, ∃ a : Accessibility.Report, s.issues.length = 2 ∧ a.breaches.length = 1 ∧
      bare (score ⟨true⟩ .errors s) = score {} .errors s ∧
      bare (Accessibility.listing ⟨true⟩ a) = Accessibility.listing {} a := by
  let i : Issue := ⟨.property, "x", some "y", "css.properties.x.y", none, .unsupported, none, none, none,
    none⟩
  let j : Issue := ⟨.property, "gap", none, "css.properties.gap", some "flexbox-gap", .low,
    some "2021-04-26", none, some ⟨1, 17⟩, none⟩
  let s : Score := ⟨[.of i, .of j], 1, 1, 95, ["chrome", "safari"], ["x: y — css.properties.x.y"]⟩
  let a : Accessibility.Report := .ofBreaches [Accessibility.Rule.imgAlt.breach]
  obtain ⟨hscore, hlisting⟩ := score_uncoloured ⟨true⟩ .errors s a
  exact ⟨s, a, rfl, rfl, hscore (by decide), hlisting (by decide)⟩

end Listing

end BaselineAudit
