import BaselineAudit.Detect.Basic
import BaselineAudit.Proofs.Pattern.Matching

/-!
# Which language wins

The candidates are considered one after the other, and one takes the lead only if strictly more speaks
for it. So the winner is the first of those that most speaks for.

* `Detect.languages`, `Detect.relevanceOf`, `Detect.Competes`: the contest, said for each language.
* `Detect.candidates_eq`: the candidates are the languages that compete.
* `Detect.isBest_better`, `Detect.best_eq_iff`: one step of the contest, and its outcome.
* `Detect.Wins.language_ne_javascript`: TypeScript is ahead of JavaScript wherever it competes.
* `Detect.classify_first_best`: the winner, and when its name is the answer.
-/

namespace BaselineAudit.Detect

variable {hits : Signal → Nat} {isDocument : Bool}

/-! ## What speaks for a language -/

/-- The languages of a profile. TypeScript comes right behind JavaScript. -/
def Profile.languages (p : Profile) : List String :=
  if p.language = "javascript" then [p.language, "typescript"] else [p.language]

/-- All languages, in the order in which they are considered. -/
def languages : List String := profiles.flatMap Profile.languages

example : languages =
    ["javascript", "typescript", "python", "java", "go", "cpp", "csharp", "rust", "sql", "xml", "css",
      "php", "json", "bash", "yaml", "markdown"] := by decide

/-- The signals of a language that has a profile. -/
def signalsOf (language : String) : List Signal :=
  ((profiles.find? (·.language = language)).map Profile.signals).getD []

/-- What speaks for a language. The signals of JavaScript speak for TypeScript too. -/
def relevanceOf (hits : Signal → Nat) (isDocument : Bool) (language : String) : Nat :=
  if language = "typescript" then weigh hits (signalsOf "javascript") + weigh hits typescriptOnly
  else weigh hits (signalsOf language) +
    if language = "json" ∧ isDocument then jsonDocumentBonus else 0

/-- A signal that only TypeScript has was found. -/
def IsTyped (hits : Signal → Nat) : Prop := ∃ s ∈ typescriptOnly, 0 < hits s

instance : Decidable (IsTyped hits) := inferInstanceAs (Decidable (∃ s ∈ typescriptOnly, 0 < hits s))

/-- A language is in the contest. -/
def Competes (hits : Signal → Nat) (language : String) : Prop :=
  language = "typescript" → IsTyped hits

instance (language : String) : Decidable (Competes hits language) :=
  inferInstanceAs (Decidable (language = "typescript" → IsTyped hits))

/-- The candidates that some languages stand for. -/
def entries (hits : Signal → Nat) (isDocument : Bool) (ls : List String) : List Detection :=
  (ls.filter (Competes hits)).map fun l => ⟨l, relevanceOf hits isDocument l⟩

theorem weigh_cons (s : Signal) (signals : List Signal) :
    weigh hits (s :: signals) = s.weight * min s.cap (hits s) + weigh hits signals := rfl

/-- Signals that can count weigh something if one of them was found. -/
theorem weigh_pos_iff {signals : List Signal} (h : ∀ s ∈ signals, 0 < s.weight ∧ 0 < s.cap) :
    0 < weigh hits signals ↔ ∃ s ∈ signals, 0 < hits s := by
  induction signals with
  | nil => simp [weigh]
  | cons s signals ih =>
    obtain ⟨⟨hweight, hcap⟩, hrest⟩ := List.forall_mem_cons.mp h
    have hs : 0 < s.weight * min s.cap (hits s) ↔ 0 < hits s := by
      rw [Nat.mul_pos_iff_of_pos_left hweight]
      omega
    rw [weigh_cons, List.exists_mem_cons_iff, ← ih hrest, ← hs]
    omega

theorem weigh_typescriptOnly_pos_iff : 0 < weigh hits typescriptOnly ↔ IsTyped hits :=
  weigh_pos_iff (by decide)

theorem signalsOf_language : ∀ p ∈ profiles, signalsOf p.language = p.signals := by
  simp [profiles, signalsOf]

theorem language_ne_typescript : ∀ p ∈ profiles, p.language ≠ "typescript" := by
  simp [profiles]

theorem relevanceOf_typescript : relevanceOf hits isDocument "typescript" =
    relevanceOf hits isDocument "javascript" + weigh hits typescriptOnly := by
  simp [relevanceOf]

/-- A profile gives the candidates that its languages stand for. -/
theorem candidatesOf_eq {p : Profile} (hp : p ∈ profiles) :
    candidatesOf hits isDocument p = entries hits isDocument p.languages := by
  have hsignals := signalsOf_language p hp
  have hne := language_ne_typescript p hp
  have hcompetes : Competes hits p.language := fun h => absurd h hne
  unfold candidatesOf entries Profile.languages
  by_cases hjs : p.language = "javascript"
  · rw [hjs] at hsignals hcompetes
    by_cases htyped : IsTyped hits
    · have hts : Competes hits "typescript" := fun _ => htyped
      simp [hjs, hcompetes, hts, relevanceOf, hsignals, weigh_typescriptOnly_pos_iff.mpr htyped]
    · have hts : ¬Competes hits "typescript" := fun h => htyped (h rfl)
      have hzero := mt weigh_typescriptOnly_pos_iff.mp htyped
      simp [hjs, hcompetes, hts, relevanceOf, hsignals, hzero]
  · simp only [hjs, ↓reduceIte, List.filter_cons, hcompetes, decide_true, List.filter_nil,
      List.map_cons, List.map_nil, relevanceOf, hne, hsignals, Bool.and_eq_true, decide_eq_true_eq]
    split <;> rfl

/-- The candidates are the languages that compete, in their order. -/
theorem candidates_eq (hits : Signal → Nat) (isDocument : Bool) :
    candidates hits isDocument = entries hits isDocument languages := by
  unfold candidates entries languages
  rw [List.filter_flatMap, List.map_flatMap]
  exact List.flatMap_congr fun p hp => candidatesOf_eq hp

theorem forall_mem_entries {ls : List String} {P : Detection → Prop} :
    (∀ e ∈ entries hits isDocument ls, P e) ↔
      ∀ l ∈ ls, Competes hits l → P ⟨l, relevanceOf hits isDocument l⟩ := by
  rw [entries, List.forall_mem_map]
  simp

/-! ## The contest -/

/-- The first of the candidates that most speaks for, or none if nothing speaks for any of them. -/
def IsBest (ds : List Detection) : Option Detection → Prop
  | none => ∀ e ∈ ds, e.relevance = 0
  | some d => ∃ before after, ds = before ++ d :: after ∧ 0 < d.relevance ∧
      (∀ e ∈ before, e.relevance < d.relevance) ∧ ∀ e ∈ after, e.relevance ≤ d.relevance

theorem IsBest.mem {ds : List Detection} {d : Detection} (h : IsBest ds (some d)) : d ∈ ds := by
  obtain ⟨before, after, rfl, -⟩ := h
  simp

theorem IsBest.relevance_le {ds : List Detection} {d e : Detection} (h : IsBest ds (some d))
    (he : e ∈ ds) : e.relevance ≤ d.relevance := by
  obtain ⟨before, after, rfl, -, hbefore, hafter⟩ := h
  rcases List.mem_append.mp he with he | he
  · exact Nat.le_of_lt (hbefore e he)
  · rcases List.mem_cons.mp he with rfl | he
    · exact Nat.le_refl _
    · exact hafter e he

/-- A candidate that is not ahead changes nothing. -/
theorem IsBest.append_le {ds : List Detection} {d e : Detection} (h : IsBest ds (some d))
    (he : e.relevance ≤ d.relevance) : IsBest (ds ++ [e]) (some d) := by
  obtain ⟨before, after, rfl, hpos, hbefore, hafter⟩ := h
  refine ⟨before, after ++ [e], by simp, hpos, hbefore, ?_⟩
  rw [List.forall_mem_append]
  exact ⟨hafter, by simpa using he⟩

/-- One step of the contest. -/
theorem isBest_better {ds : List Detection} {leader : Option Detection} (h : IsBest ds leader)
    (d : Detection) : IsBest (ds ++ [d]) (better leader d) := by
  unfold better
  by_cases hzero : d.relevance = 0
  · rw [if_pos hzero]
    cases leader with
    | none =>
      intro e he
      rcases List.mem_append.mp he with he | he
      · exact h e he
      · rw [List.mem_singleton.mp he, hzero]
    | some b => exact h.append_le (by omega)
  · rw [if_neg hzero]
    cases leader with
    | none => exact ⟨ds, [], rfl, by omega, fun e he => by rw [h e he]; omega, by simp⟩
    | some b =>
      by_cases hahead : b.relevance < d.relevance
      · simp only [hahead, ↓reduceIte]
        exact ⟨ds, [], rfl, by omega, fun e he => Nat.lt_of_le_of_lt (h.relevance_le he) hahead, by simp⟩
      · simp only [hahead, ↓reduceIte]
        exact h.append_le (by omega)

/-- The whole contest, from any lead on. -/
theorem isBest_foldl (ds' : List Detection) {ds : List Detection} {leader : Option Detection}
    (h : IsBest ds leader) : IsBest (ds ++ ds') (ds'.foldl better leader) := by
  induction ds' generalizing ds leader with
  | nil => simpa using h
  | cons d ds' ih => simpa using ih (isBest_better h d)

theorem isBest_best (ds : List Detection) : IsBest ds (best ds) :=
  isBest_foldl ds (show IsBest [] none by simp [IsBest])

/-- The winner is the first candidate that so much speaks for. -/
theorem IsBest.find?_eq {ds : List Detection} {d : Detection} (h : IsBest ds (some d)) :
    ds.find? (d.relevance ≤ ·.relevance) = some d := by
  obtain ⟨before, after, rfl, -, hbefore, -⟩ := h
  have hnone : before.find? (d.relevance ≤ ·.relevance) = none :=
    List.find?_eq_none.mpr fun e he => by simpa using hbefore e he
  rw [List.find?_append, hnone, Option.none_or, List.find?_cons_of_pos (by simp)]

theorem IsBest.not_none {ds : List Detection} {d : Detection} (h : IsBest ds (some d)) :
    ¬IsBest ds none := by
  intro hnone
  obtain ⟨before, after, rfl, hpos, -⟩ := h
  exact Nat.ne_of_gt hpos (hnone d (by simp))

/-- A contest has one outcome. -/
theorem IsBest.unique {ds : List Detection} {o o' : Option Detection} (h : IsBest ds o)
    (h' : IsBest ds o') : o = o' := by
  cases o with
  | none =>
    cases o' with
    | none => rfl
    | some d' => exact absurd h h'.not_none
  | some d =>
    cases o' with
    | none => exact absurd h' h.not_none
    | some d' =>
      have hequal : d.relevance = d'.relevance :=
        Nat.le_antisymm (h'.relevance_le h.mem) (h.relevance_le h'.mem)
      rw [← h.find?_eq, hequal, h'.find?_eq]

theorem best_eq_iff {ds : List Detection} {o : Option Detection} : best ds = o ↔ IsBest ds o :=
  ⟨fun h => h ▸ isBest_best ds, fun h => (isBest_best ds).unique h⟩

/-! ## The winner -/

/-- A language that wins: it competes, something speaks for it, more than for every language before it
and no less than for every language behind it. -/
structure Wins (hits : Signal → Nat) (isDocument : Bool) (d : Detection) : Prop where
  competes : Competes hits d.language
  relevance_eq : d.relevance = relevanceOf hits isDocument d.language
  pos : 0 < d.relevance
  first : ∃ before after, languages = before ++ d.language :: after ∧
    (∀ l ∈ before, Competes hits l → relevanceOf hits isDocument l < d.relevance) ∧
    ∀ l ∈ after, Competes hits l → relevanceOf hits isDocument l ≤ d.relevance

theorem best_candidates_eq_none_iff : best (candidates hits isDocument) = none ↔
    ∀ l ∈ languages, Competes hits l → relevanceOf hits isDocument l = 0 := by
  rw [best_eq_iff, candidates_eq]
  exact forall_mem_entries

theorem best_candidates_eq_some_iff {d : Detection} :
    best (candidates hits isDocument) = some d ↔ Wins hits isDocument d := by
  rw [best_eq_iff, candidates_eq]
  constructor
  · rintro ⟨before, after, hsplit, hpos, hbefore, hafter⟩
    -- the place among the candidates is a place among all languages
    obtain ⟨ls, rest, hfilter, rfl, hrest⟩ := List.map_eq_append_iff.mp hsplit
    obtain ⟨l, ls', rfl, rfl, rfl⟩ := List.map_eq_cons_iff.mp hrest
    obtain ⟨front, back, hlanguages, rfl, hback⟩ := List.filter_eq_append_iff.mp hfilter
    obtain ⟨skipped, after, rfl, hskipped, hl, rfl⟩ := List.filter_eq_cons_iff.mp hback
    refine ⟨by simpa using hl, rfl, hpos, front ++ skipped, after, by simp [hlanguages], ?_,
      forall_mem_entries.mp hafter⟩
    rw [List.forall_mem_append]
    exact ⟨forall_mem_entries.mp hbefore,
      fun k hk hcompetes => absurd (by simpa using hcompetes) (hskipped k hk)⟩
  · rintro ⟨hcompetes, hrelevance, hpos, before, after, hlanguages, hbefore, hafter⟩
    refine ⟨entries hits isDocument before, entries hits isDocument after, ?_, hpos,
      forall_mem_entries.mpr hbefore, forall_mem_entries.mpr hafter⟩
    rw [hlanguages]
    simp [entries, hcompetes, ← hrelevance]

theorem Wins.language_mem {d : Detection} (h : Wins hits isDocument d) : d.language ∈ languages := by
  obtain ⟨before, after, hlanguages, -⟩ := h.first
  simp [hlanguages]

theorem Wins.relevanceOf_le {d : Detection} (h : Wins hits isDocument d) {l : String}
    (hl : l ∈ languages) (hcompetes : Competes hits l) :
    relevanceOf hits isDocument l ≤ d.relevance := by
  have hbest := best_eq_iff.mp (best_candidates_eq_some_iff.mpr h)
  rw [candidates_eq] at hbest
  exact forall_mem_entries.mp (fun e he => hbest.relevance_le he) l hl hcompetes

/-- TypeScript is ahead of JavaScript wherever it competes. -/
theorem Wins.language_ne_javascript {d : Detection} (h : Wins hits isDocument d)
    (htyped : IsTyped hits) : d.language ≠ "javascript" := by
  intro hjs
  have hle := h.relevanceOf_le (l := "typescript") (by decide) fun _ => htyped
  have hpos := weigh_typescriptOnly_pos_iff.mpr htyped
  rw [h.relevance_eq, hjs, relevanceOf_typescript] at hle
  omega

/-! ## Texts -/

/-- How often a signal is found in a text. -/
def Signal.found (text : String) (s : Signal) : Nat := (s.pattern.allMatches text.toList).length

/-- A signal that is found more often than it counts weighs as much as one that counts. -/
theorem weigh_hits (text : String) (signals : List Signal) :
    weigh (·.hits text.toList) signals = weigh (·.found text) signals := by
  have hmin (s : Signal) : min s.cap (s.hits text.toList) = min s.cap (s.found text) := by
    rw [Signal.hits, Pattern.count_eq, Signal.found]
    omega
  simp only [weigh, hmin]

theorem classify_eq (text : String) :
    classify text = best (candidates (·.found text) (isJsonDocument text)) := by
  have hcandidates : candidatesOf (·.hits text.toList) = candidatesOf (·.found text) := by
    funext isDocument p
    simp only [candidatesOf, weigh_hits]
  rw [classify, candidates, hcandidates, candidates]

theorem isSome_editorId? : ∀ l ∈ languages, (editorId? l).isSome := by
  decide

theorem confident_iff {d : Detection} : minConfidence ≤ d.confidence ↔ 2 ≤ d.relevance := by
  simp only [minConfidence, Detection.confidence]
  omega

theorem detect_of_long {text : String} (h : 3 ≤ (Text.trim text).length) :
    detect text = (((classify (Text.trim text)).filter (2 ≤ ·.relevance)).bind
      (editorId? ·.language)).getD (fallback (Text.trim text).toList) := by
  have hlong : ¬(Text.trim text).toList.length < minLength := by
    rw [String.length_toList]
    exact Nat.not_lt.mpr h
  simp only [detect, if_neg hlong, confident_iff]
  generalize fallback (Text.trim text).toList = rest
  cases (classify (Text.trim text)).filter (2 ≤ ·.relevance) with
  | none => rw [Option.bind_none, Option.getD_none]
  | some d => rw [Option.bind_some]

theorem detect_of_relevant {text : String} (h : 3 ≤ (Text.trim text).length) {d : Detection}
    (hd : classify (Text.trim text) = some d) (hrelevant : 2 ≤ d.relevance) :
    editorId? d.language = some (detect text) := by
  have hwins := best_candidates_eq_some_iff.mp ((classify_eq _).symm.trans hd)
  obtain ⟨id, hid⟩ := Option.isSome_iff_exists.mp (isSome_editorId? _ hwins.language_mem)
  rw [detect_of_long h, hd, Option.filter_some_pos (by simpa using hrelevant), Option.bind_some, hid,
    Option.getD_some]

theorem detect_of_irrelevant {text : String} (h : 3 ≤ (Text.trim text).length)
    (hirrelevant : ∀ d, classify (Text.trim text) = some d → d.relevance < 2) :
    detect text = fallback (Text.trim text).toList := by
  have hnone : (classify (Text.trim text)).filter (2 ≤ ·.relevance) = none :=
    Option.filter_eq_none_iff.mpr fun d hd => by simpa using hirrelevant d hd
  rw [detect_of_long h, hnone, Option.bind_none, Option.getD_none]

/-- The winner is the first language that most speaks for, over any counts of the signals; a text has
a winner by the counts of its matches. It is never JavaScript where TypeScript competes. The winner
names the language of a text that is long enough if its relevance is at least two, and otherwise the
text is looked at for markup and for scripts. -/
theorem classify_first_best (hits : Signal → Nat) (isDocument : Bool) (text : String) :
    (best (candidates hits isDocument) = none ↔
      ∀ l ∈ languages, Competes hits l → relevanceOf hits isDocument l = 0) ∧
    (∀ d, best (candidates hits isDocument) = some d ↔ Wins hits isDocument d) ∧
    (IsTyped hits → ∀ d, best (candidates hits isDocument) = some d → d.language ≠ "javascript") ∧
    classify text = best (candidates (·.found text) (isJsonDocument text)) ∧
    (3 ≤ (Text.trim text).length →
      (∀ d, classify (Text.trim text) = some d → 2 ≤ d.relevance →
        editorId? d.language = some (detect text)) ∧
      ((∀ d, classify (Text.trim text) = some d → d.relevance < 2) →
        detect text =
          if leadingTag.occurs (Text.trim text).toList && tagLike.occurs (Text.trim text).toList then
            "html"
          else if scriptHint.occurs (Text.trim text).toList then "javascript"
          else "plaintext")) := by
  refine ⟨best_candidates_eq_none_iff, fun d => best_candidates_eq_some_iff, ?_, classify_eq text, ?_⟩
  · intro htyped d hd
    exact (best_candidates_eq_some_iff.mp hd).language_ne_javascript htyped
  · intro hlong
    exact ⟨fun d => detect_of_relevant hlong, detect_of_irrelevant hlong⟩

/-- A script with one type in it. -/
theorem classify_first_best_typed :
    IsTyped (Signal.found "(x: any) => x") ∧
    (∀ d, classify "(x: any) => x" = some d → d.language ≠ "javascript") ∧
    3 ≤ (Text.trim " (x: any) => x").length ∧
    editorId? "typescript" = some (detect " (x: any) => x") := by
  have htyped : IsTyped (Signal.found "(x: any) => x") := by decide +kernel
  have htrim : Text.trim " (x: any) => x" = "(x: any) => x" := by decide +kernel
  have hlong : 3 ≤ (Text.trim " (x: any) => x").length := by rw [htrim]; decide
  have hwinner : classify (Text.trim " (x: any) => x") = some ⟨"typescript", 4⟩ := by
    rw [htrim]; decide +kernel
  obtain ⟨-, -, hjavascript, hclassify, -⟩ := classify_first_best (Signal.found "(x: any) => x")
    (isJsonDocument "(x: any) => x") "(x: any) => x"
  obtain ⟨-, -, -, -, hdetect⟩ := classify_first_best (fun _ => 0) false " (x: any) => x"
  exact ⟨htyped, fun d hd => hjavascript htyped d (hclassify.symm.trans hd), hlong,
    (hdetect hlong).1 _ hwinner (by decide)⟩

end BaselineAudit.Detect
