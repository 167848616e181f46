import BaselineAudit.Proofs.Json.Table
import BaselineAudit.Proofs.Report.Tally
import Mathlib.Data.List.Induction

/-!
# The summary of a score

A score ends with the browsers that lack something and with a bullet for each of the first few keys.

* `Score.Misses`: a browser is not in the support that is known of an issue.
* `Score.turn`: when a browser comes up. The browsers of a score stand in the order of their turns
  (`Score.pairwise_lackingBrowsers`), which with `Score.mem_browsers_iff` gives
  `Score.browsers_in_turn`.
* `Score.keys`: the keys of a score in the order in which they come up. The bullets are about the first
  of them (`Score.bullets_of_first_keys`).
-/

namespace BaselineAudit

/-! ## First items and their views -/

section FirstOf

variable {α β : Type} [DecidableEq β]

/-- The views of the first items are the views without repetition. -/
theorem map_firstOf (f : α → β) (l : List α) : (firstOf f [] l).map f = (l.map f).eraseDups := by
  suffices H : ∀ seen, (firstOf f seen l).map f = ((l.map f).filter (· ∉ seen)).eraseDups by
    simpa using H []
  induction l with
  | nil => exact fun _ => rfl
  | cons a l ih =>
    intro seen
    rw [List.map_cons]
    by_cases ha : f a ∈ seen
    · rw [firstOf_cons_of_mem l ha, ih, List.filter_cons_of_neg (by simpa using ha)]
    · rw [firstOf_cons_of_notMem l ha, List.map_cons, ih, List.filter_cons_of_pos (by simpa using ha),
        List.eraseDups_cons, List.filter_filter]
      congr 3
      funext b
      rw [Bool.eq_iff_iff]
      simp

/-- An item that is kept is the first one with its view. -/
theorem find?_of_mem_firstOf {f : α → β} {seen : List β} {l : List α} {a : α}
    (h : a ∈ firstOf f seen l) : l.find? (f · == f a) = some a := by
  induction l generalizing seen with
  | nil => exact absurd h List.not_mem_nil
  | cons b l ih =>
    by_cases hb : f b ∈ seen
    · rw [firstOf_cons_of_mem l hb] at h
      have hne : f b ≠ f a := fun he => notMem_seen_of_mem_firstOf h (he ▸ hb)
      rw [List.find?_cons_of_neg (by simpa using hne), ih h]
    · rw [firstOf_cons_of_notMem l hb] at h
      rcases List.mem_cons.mp h with rfl | h
      · exact List.find?_cons_of_pos (beq_self_eq_true _)
      · have hne : f b ≠ f a := fun he => notMem_seen_of_mem_firstOf h (he ▸ List.mem_cons_self)
        rw [List.find?_cons_of_neg (by simpa using hne), ih h]

end FirstOf

namespace Score

/-! ## Browsers -/

/-- The support that is known of an issue, if any, names neither a browser nor, for `safari`, its
mobile edition. -/
def Misses (browser : String) (i : Issue) : Prop :=
  ∀ t ∈ i.support, browser ∉ t.map Prod.fst ∧ (browser = "safari" → "safari_ios" ∉ t.map Prod.fst)

theorem supports_eq_false_iff {browser : String} {i : Issue} :
    supports browser i = false ↔ Misses browser i := by
  unfold supports Misses
  cases i.support with
  | none => simp
  | some t => simp [Json.find?_eq_none_iff]

instance (browser : String) (i : Issue) : Decidable (Misses browser i) :=
  decidable_of_iff _ supports_eq_false_iff

theorem lacks_iff {browser : String} {i : Issue} :
    Lacks browser i ↔ browser ∈ coreBrowsers ∧ Misses browser i :=
  and_congr_right' supports_eq_false_iff

/-- When a browser comes up: at the first issue whose support does not name it, and there in the order
of the core browsers. -/
def turn (issues : List ScoredIssue) (browser : String) : ℕ ×ₗ ℕ :=
  toLex (issues.findIdx fun s => Misses browser s.issue,
    ["chrome", "firefox", "safari"].idxOf browser)

theorem lackingBrowsers_concat (front : List ScoredIssue) (s : ScoredIssue) :
    lackingBrowsers (front ++ [s]) = addLacking (lackingBrowsers front) s :=
  List.foldl_concat ..

/-- A browser that has come up did so at one of the issues. -/
theorem findIdx_lt_length_of_mem {issues : List ScoredIssue} {browser : String}
    (h : browser ∈ lackingBrowsers issues) :
    issues.findIdx (fun s => Misses browser s.issue) < issues.length := by
  obtain ⟨s, hs, hlacks⟩ := mem_lackingBrowsers.mp h
  exact List.findIdx_lt_length.mpr ⟨s, hs, decide_eq_true (lacks_iff.mp hlacks).2⟩

/-- A further issue does not change the turn of a browser that has come up. -/
theorem turn_concat_of_mem {front : List ScoredIssue} {browser : String} (s : ScoredIssue)
    (h : browser ∈ lackingBrowsers front) : turn (front ++ [s]) browser = turn front browser := by
  rw [turn, List.findIdx_append, if_pos (findIdx_lt_length_of_mem h), turn]

/-- A browser that has not come up does so at the next issue, if its support does not name it. -/
theorem turn_concat_of_notMem {front : List ScoredIssue} {browser : String} {s : ScoredIssue}
    (hcore : browser ∈ coreBrowsers) (h : browser ∉ lackingBrowsers front)
    (hs : Misses browser s.issue) :
    turn (front ++ [s]) browser =
      toLex (front.length, ["chrome", "firefox", "safari"].idxOf browser) := by
  have hfront : ∀ t ∈ front, ¬Misses browser t.issue := fun t ht hmisses =>
    h (mem_lackingBrowsers.mpr ⟨t, ht, lacks_iff.mpr ⟨hcore, hmisses⟩⟩)
  have hlength : front.findIdx (fun t => Misses browser t.issue) = front.length :=
    List.findIdx_eq_length.mpr fun t ht => decide_eq_false (hfront t ht)
  rw [turn, List.findIdx_append, hlength, if_neg (lt_irrefl _), List.findIdx_cons]
  simp [hs]

/-- Browsers come up in the order of their turns. -/
theorem pairwise_lackingBrowsers (issues : List ScoredIssue) :
    (lackingBrowsers issues).Pairwise fun b c => turn issues b < turn issues c := by
  induction issues using List.reverseRecOn with
  | nil => exact .nil
  | append_singleton front s ih =>
    -- browsers that have come up keep their turns, and `s` is the turn of those that come up now
    have hnew : ∀ b ∈ coreBrowsers.filter
        (fun b => !(lackingBrowsers front).contains b && !supports b s.issue),
        turn (front ++ [s]) b =
          toLex (front.length, ["chrome", "firefox", "safari"].idxOf b) := by
      intro b hb
      obtain ⟨hcore, hb⟩ := List.mem_filter.mp hb
      simp only [Bool.and_eq_true, Bool.not_eq_true', List.contains_eq_mem, decide_eq_false_iff_not,
        supports_eq_false_iff] at hb
      exact turn_concat_of_notMem hcore hb.1 hb.2
    rw [lackingBrowsers_concat, addLacking, List.pairwise_append]
    refine ⟨ih.imp_of_mem fun {b c} hb hc h => ?_, ?_, fun b hb c hc => ?_⟩
    · rwa [turn_concat_of_mem s hb, turn_concat_of_mem s hc]
    · have hcore : coreBrowsers.Pairwise fun b c => ["chrome", "firefox", "safari"].idxOf b <
          ["chrome", "firefox", "safari"].idxOf c := by
        decide
      refine (hcore.filter _).imp_of_mem fun {b c} hb hc h => ?_
      rw [hnew b hb, hnew c hc, Prod.Lex.toLex_lt_toLex]
      exact .inr ⟨rfl, h⟩
    · rw [turn_concat_of_mem s hb, hnew c hc, turn, Prod.Lex.toLex_lt_toLex]
      exact .inl (findIdx_lt_length_of_mem hb)

/-- The browsers of a score are named once each. They are the core browsers that the known support of
some issue of the report does not name. They stand in the order of the first such issue, and those for
which it is the same one in the order of the core browsers. -/
theorem browsers_in_turn (r : Report) :
    (ofReport r).browsers.Nodup ∧
    (∀ browser, browser ∈ (ofReport r).browsers ↔
      browser ∈ ["chrome", "firefox", "safari"] ∧ ∃ i ∈ r.issues, Misses browser i) ∧
    (ofReport r).browsers.Pairwise fun b c =>
      turn (ofReport r).issues b < turn (ofReport r).issues c := by
  have horder := pairwise_lackingBrowsers (ofReport r).issues
  refine ⟨horder.imp fun h => ne_of_apply_ne _ h.ne, fun browser => ?_, horder⟩
  rw [mem_browsers_iff]
  simp only [lacks_iff, and_left_comm, exists_and_left]
  rfl

/-! ## Bullets -/

/-- The keys of a score, each once, in the order in which they come up. -/
def keys (s : Score) : List String := (s.issues.map (·.issue.key)).eraseDups

theorem firstOfKeys_eq_firstOf (seen : List String) (issues : List ScoredIssue) :
    firstOfKeys seen issues = firstOf (·.issue.key) seen issues := by
  induction issues generalizing seen with
  | nil => rfl
  | cons s issues ih =>
    rw [firstOfKeys, firstOf]
    by_cases hs : s.issue.key ∈ seen
    · simp [hs, ih]
    · simp [hs, ih]

/-- The first issue of each key. -/
def leads (s : Score) : List ScoredIssue := firstOf (·.issue.key) [] s.issues

theorem keys_eq (s : Score) : s.keys = s.leads.map (·.issue.key) :=
  (map_firstOf (fun i : ScoredIssue => i.issue.key) s.issues).symm

theorem keys_nodup (s : Score) : s.keys.Nodup := by
  rw [keys_eq]
  exact firstOf_nodup _ _ _

theorem bullets_eq (r : Report) : (ofReport r).bullets = ((ofReport r).leads.take 4).map bullet :=
  congrArg (fun l => (l.take 4).map bullet) (firstOfKeys_eq_firstOf [] _)

end Score

/-- One of the issues with a key is critical. -/
def Report.IsCritical (r : Report) (key : String) : Prop :=
  ∃ i ∈ r.issues, i.key = key ∧ i.level = .unsupported

namespace Score

theorem isCritical_iff {r : Report} {key : String} :
    r.IsCritical key ↔ ∃ s ∈ (ofReport r).issues, s.issue.key = key ∧ s.severity = .critical := by
  have hseverity : ∀ i : Issue, Severity.of i = .critical ↔ i.level = .unsupported := by
    intro i
    unfold Severity.of
    split <;> simp_all
  simp only [mem_issues, exists_exists_and_eq_and, ScoredIssue.of, hseverity]
  rfl

/-- The first issue of a key is critical if one of its issues is. -/
theorem severity_lead {r : Report} {s : ScoredIssue} (hs : s ∈ (ofReport r).leads) :
    s.severity = .critical ↔ r.IsCritical s.issue.key := by
  rw [isCritical_iff]
  constructor
  · exact fun h => ⟨s, mem_of_mem_firstOf hs, rfl, h⟩
  · rintro ⟨t, ht, hkey, hcritical⟩
    -- `t` is `s` or stands behind it
    obtain ⟨-, front, back, hissues, hfront⟩ :=
      List.find?_eq_some_iff_append.mp (find?_of_mem_firstOf hs)
    have hranked := issues_pairwise r
    rw [hissues] at ht hranked
    rcases List.mem_append.mp ht with ht | ht
    · exact absurd hkey (by simpa using hfront t ht)
    rcases List.mem_cons.mp ht with rfl | ht
    · exact hcritical
    · have hrank := (List.pairwise_cons.mp (List.pairwise_append.mp hranked).2.1).1 t ht
      exact ScoredIssue.critical_of_rank_le hrank hcritical

/-- Critical keys come up before the others. -/
theorem pairwise_keys (r : Report) :
    (ofReport r).keys.Pairwise fun k l => r.IsCritical l → r.IsCritical k := by
  rw [keys_eq, List.pairwise_map]
  refine ((issues_pairwise r).sublist (firstOf_sublist _ _ _)).imp_of_mem fun {s t} hs ht hrank => ?_
  rw [← severity_lead hs, ← severity_lead ht]
  exact ScoredIssue.critical_of_rank_le hrank

/-- There is a bullet for each of the first four keys, in the order in which keys come up, and no key
comes up twice. A bullet tells the property, the value if there is one and the key, those of the first
issue with this key, which is critical if any issue with the key is. If a critical key has no bullet,
all bullets are about critical keys. -/
theorem bullets_of_first_keys (r : Report) :
    (ofReport r).keys.Nodup ∧
    (ofReport r).bullets.length = min 4 (ofReport r).keys.length ∧
    (∀ n key, n < 4 → (ofReport r).keys[n]? = some key → ∃ first,
      (ofReport r).issues.find? (·.issue.key == key) = some first ∧
      (first.severity = .critical ↔ r.IsCritical key) ∧
      (ofReport r).bullets[n]? = some
        (first.issue.property ++ (first.issue.value.map (": " ++ ·)).getD "" ++ " — " ++ key)) ∧
    ∀ key, r.IsCritical key → key ∉ (ofReport r).keys.take 4 →
      ∀ shown ∈ (ofReport r).keys.take 4, r.IsCritical shown := by
  refine ⟨keys_nodup _, ?_, ?_, ?_⟩
  · rw [bullets_eq, keys_eq, List.length_map, List.length_take, List.length_map]
  · intro n key hn hkey
    rw [keys_eq, List.getElem?_map] at hkey
    obtain ⟨first, hfirst, rfl⟩ := Option.map_eq_some_iff.mp hkey
    have hmem : first ∈ (ofReport r).leads := List.mem_of_getElem? hfirst
    refine ⟨first, find?_of_mem_firstOf hmem, severity_lead hmem, ?_⟩
    rw [bullets_eq, List.getElem?_map, List.getElem?_take_of_lt hn, hfirst, Option.map_some, bullet,
      Issue.label]
    cases first.issue.value <;> simp [String.append_assoc]
  · intro key hcritical hkey shown hshown
    have hmem : key ∈ (ofReport r).keys := by
      obtain ⟨s, hs, rfl, -⟩ := isCritical_iff.mp hcritical
      exact List.mem_eraseDups.mpr (List.mem_map_of_mem hs)
    rw [← List.take_append_drop 4 (ofReport r).keys] at hmem
    have hdrop := (List.mem_append.mp hmem).resolve_left hkey
    have horder := pairwise_keys r
    rw [← List.take_append_drop 4 (ofReport r).keys, List.pairwise_append] at horder
    exact horder.2.2 shown hshown key hdrop hcritical

/-- Five critical keys, of which one comes twice, and a moderate one. The last critical key has no
bullet, and neither has the moderate one. -/
theorem bullets_of_first_keys_six :
    ∃ r : Report, (ofReport r).keys = ["a", "b", "c", "d", "e", "f"] ∧
      (ofReport r).bullets.length = 4 ∧ (ofReport r).bullets[0]? = some "top: auto — a" ∧
      r.IsCritical "e" ∧ "e" ∉ (ofReport r).keys.take 4 ∧ r.IsCritical "b" := by
  let issue (key : String) (value : Option String) (level : Level) (line : Nat) : Issue :=
    ⟨.property, "top", value, key, none, level, none, none, some ⟨line, 1⟩, none⟩
  let r : Report := .ofIssues .css .high
    [issue "a" (some "auto") .unsupported 1, issue "a" none .unsupported 2, issue "b" none .unsupported 3,
      issue "c" none .unsupported 4, issue "d" none .unsupported 5, issue "e" none .unsupported 6,
      issue "f" none .low 1] 7
  have hissues : (ofReport r).issues = r.issues.map .of := List.mergeSort_of_pairwise (by decide)
  have hkeys : (ofReport r).keys = ["a", "b", "c", "d", "e", "f"] := by
    rw [keys, hissues]
    decide
  have hcritical : r.IsCritical "e" :=
    ⟨issue "e" none .unsupported 6, by simp [r, Report.ofIssues], rfl, rfl⟩
  have hhidden : "e" ∉ (ofReport r).keys.take 4 := by
    rw [hkeys]
    decide
  obtain ⟨-, hlength, hbullet, hshown⟩ := bullets_of_first_keys r
  obtain ⟨first, hfirst, -, hzero⟩ := hbullet 0 "a" (by decide) (by rw [hkeys]; rfl)
  refine ⟨r, hkeys, by rw [hlength, hkeys]; rfl, ?_, hcritical, hhidden,
    hshown "e" hcritical hhidden "b" (by rw [hkeys]; decide)⟩
  rw [hissues] at hfirst
  obtain rfl : ScoredIssue.of (issue "a" (some "auto") .unsupported 1) = first := Option.some.inj hfirst
  exact hzero

end Score

end BaselineAudit
