import BaselineAudit.Component.Property
import BaselineAudit.Proofs.Text.Words

/-!
# Names of style properties

A key of a style object is put together from words, and the name of the property is made of the same
words with dashes between them.

* `Component.Word`, `Component.camelCase`, `Component.pascalCase`, `Component.dashCase`: words, and the
  ways to join them.
* `Component.nameWordsFrom_small`: the words of a joined name are those it was joined from.
* `Component.isVendored_iff`: which keys belong to one browser.
* `Component.propertyName_of_dashless`: a name that has no dash is not changed any more.
* `Component.propertyName_of_words`: the names of keys that are joined from words.
-/

namespace BaselineAudit.Component

open Text

/-! ## Words -/

/-- A word of at least two small letters. -/
structure Word where
  text : String
  long : 2 ≤ text.length
  small : ∀ c ∈ text.toList, c.isLower = true

/-- A word with a capital at its start. -/
def Word.capitalized (w : Word) : List Char :=
  match w.text.toList with
  | [] => []
  | c :: cs => c.toUpper :: cs

/-- Words joined with a capital at the start of each. -/
def pascalCase (ws : List Word) : String := String.ofList (ws.flatMap Word.capitalized)

/-- Words joined with a capital at the start of each but the first. -/
def camelCase : List Word → String
  | [] => ""
  | w :: ws => w.text ++ pascalCase ws

/-- Words joined with dashes. -/
def dashCase (ws : List Word) : String := "-".intercalate (ws.map Word.text)

namespace Word

/-- A word is a letter and at least one more. -/
theorem exists_cons (w : Word) : ∃ c d cs, w.text.toList = c :: d :: cs ∧
    w.capitalized = c.toUpper :: d :: cs ∧ c.isLower = true ∧ ∀ e ∈ d :: cs, e.isLower = true := by
  have hlong := w.long
  have hsmall := w.small
  unfold capitalized
  rw [← String.length_toList] at hlong
  generalize w.text.toList = letters at *
  rcases letters with - | ⟨c, - | ⟨d, cs⟩⟩
  · exact absurd hlong (by decide)
  · exact absurd hlong (by simp)
  · obtain ⟨hc, hcs⟩ := List.forall_mem_cons.mp hsmall
    exact ⟨c, d, cs, rfl, rfl, hc, hcs⟩

theorem ofList_map_toLower {w : String} (h : ∀ c ∈ w.toList, c.isLower = true) :
    String.ofList (w.toList.map Char.toLower) = w := by
  rw [map_toLower_of_not_isUpper fun c hc => isUpper_eq_false_of_isLower (h c hc),
    String.ofList_toList]

/-- In small letters, a word with a capital is the word. -/
theorem ofList_map_toLower_capitalized (w : Word) :
    String.ofList (w.capitalized.map Char.toLower) = w.text := by
  obtain ⟨c, d, cs, htext, hw, hc, hcs⟩ := w.exists_cons
  have hlower : c.toUpper.toLower = c := (toLower_eq_iff hc).mpr (.inr rfl)
  have hsame : (c :: d :: cs).map Char.toLower = c :: (d :: cs).map Char.toLower := by
    rw [List.map_cons, toLower_of_not_isUpper (isUpper_eq_false_of_isLower hc)]
  rw [hw, List.map_cons, hlower, ← hsame, ← htext, ofList_map_toLower w.small]

theorem isAlphanum_capitalized (w : Word) : ∀ c ∈ w.capitalized, c.isAlphanum = true := by
  obtain ⟨c, d, cs, -, hw, hc, hcs⟩ := w.exists_cons
  rw [hw]
  exact List.forall_mem_cons.mpr
    ⟨isAlphanum_of_isUpper (isUpper_toUpper hc), fun e he => isAlphanum_of_isLower (hcs e he)⟩

end Word

/-- Behind small letters, the words of a joined name are those it was joined from. -/
theorem nameWordsFrom_small {mode : Mode} {word small : List Char} (ws : List Word)
    (hne : small ≠ []) (hsmall : ∀ c ∈ small, c.isLower = true) :
    nameWordsFrom mode word (small ++ ws.flatMap Word.capitalized) =
      (word.reverse ++ small) :: ws.map Word.capitalized := by
  induction ws generalizing mode word small with
  | nil =>
    rw [List.flatMap_nil, nameWordsFrom_append hne (fun c hc => isCapital_of_isLower (hsmall c hc))
      (by simp)]
    rfl
  | cons w ws ih =>
    obtain ⟨c, d, cs, -, hw, hc, hcs⟩ := w.exists_cons
    have hupper := isUpper_toUpper hc
    rw [List.flatMap_cons, nameWordsFrom_append hne (fun c hc => isCapital_of_isLower (hsmall c hc)),
      hw, List.cons_append, List.cons_append,
      nameWordsFrom_capital _ (isCapital_of_isUpper hupper) (isSmall_of_isUpper hupper),
      ← List.cons_append, ih (List.cons_ne_nil d cs) hcs, List.map_cons, hw]
    · rfl
    · intro e he
      rw [hw] at he
      obtain rfl : c.toUpper = e := by simpa using he
      exact ⟨isCapital_of_isUpper hupper, fun e he =>
        isSmall_of_isLower (hsmall e (List.mem_of_getLast? he))⟩

/-! ## Keys without dashes -/

section Keys

variable {key : String}

theorem dropLeading_eq_some_iff {needle hay rest : List Char} :
    dropLeading needle hay = some rest ↔ hay = needle ++ rest := by
  induction needle generalizing hay with
  | nil => simp [dropLeading, eq_comm]
  | cons n needle ih =>
    cases hay with
    | nil => simp [dropLeading]
    | cons h hay =>
      rw [dropLeading]
      split
      next hn => simp [ih, beq_iff_eq.mp hn]
      next hn =>
        have hne : ¬h = n := fun he => hn (by simp [he])
        simp [hne]

/-- A key belongs to one browser if a capital follows the name of a vendor. -/
theorem isVendored_iff : isVendored key = true ↔
    ∃ v ∈ vendors, ∃ c rest, key.toList = v.toList ++ c :: rest ∧ c.isUpper = true := by
  rw [isVendored, List.any_eq_true]
  refine exists_congr fun v => and_congr_right fun _ => ?_
  simp only [← dropLeading_eq_some_iff]
  cases dropLeading v.toList key.toList with
  | none => simp
  | some rest => cases rest <;> simp

/-- The name of a key of letters and digits is made of its words. -/
theorem propertyName_of_nameWords {ws : List (List Char)} (hne : key.toList ≠ [])
    (hkey : ∀ c ∈ key.toList, c.isAlphanum = true)
    (hws : nameWordsFrom .fresh [] key.toList = ws) :
    propertyName key = (if isVendored key then "-" else "") ++
      "-".intercalate (ws.map fun w => String.ofList (w.map Char.toLower)) := by
  have hdash : key.toList.contains '-' = false := by
    rw [Bool.eq_false_iff, ne_eq, List.contains_iff_mem]
    exact fun hmem => absurd (hkey _ hmem) (by decide)
  have hcustom : dropLeading ['-', '-'] key.toList = none := by
    cases h : dropLeading ['-', '-'] key.toList with
    | none => rfl
    | some rest =>
      rw [dropLeading_eq_some_iff.mp h] at hkey
      exact absurd (hkey '-' (by simp)) (by decide)
  have hdashed : dashed key = "-".intercalate (ws.map fun w => String.ofList (w.map Char.toLower)) := by
    have hrun : runs (!isAlphanumeric ·) key.toList = [key.toList] := by
      refine runs_of_noGap hne fun c hc => ?_
      rw [isAlphanumeric_of_ascii (ascii_of_isAlphanum (hkey c hc)), hkey c hc]
      rfl
    rw [dashed, nameWords, hrun, List.flatMap_singleton, hws]
    refine congrArg _ (List.map_congr_left fun w hw => congrArg _ (smallWord_of_ascii fun c hc => ?_))
    rw [← hws] at hw
    have hmem := (mem_of_mem_nameWordsFrom hw hc).resolve_left List.not_mem_nil
    exact ascii_of_isAlphanum (hkey c hmem)
  rw [propertyName, hcustom, hdash, hdashed]
  cases isVendored key <;> simp

end Keys

/-! ## Joined keys -/

/-- The name of a key whose words are known, all but the first of them with a capital. -/
theorem propertyName_of_joined {key : String} {first : List Char} {ws : List Word}
    (hkey : ∀ c ∈ key.toList, c.isAlphanum = true)
    (hwords : nameWordsFrom .fresh [] key.toList = first :: ws.map Word.capitalized) :
    propertyName key = (if isVendored key then "-" else "") ++
      "-".intercalate (String.ofList (first.map Char.toLower) :: ws.map Word.text) := by
  have hne : key.toList ≠ [] := by
    intro hnil
    rw [hnil, nameWordsFrom] at hwords
    exact absurd hwords (by simp)
  rw [propertyName_of_nameWords hne hkey hwords, List.map_cons, List.map_map]
  simp only [Function.comp_def, Word.ofList_map_toLower_capitalized]

theorem toList_append_pascalCase (s : String) (ws : List Word) :
    (s ++ pascalCase ws).toList = s.toList ++ ws.flatMap Word.capitalized := by
  simp [pascalCase]

theorem isAlphanum_append_pascalCase {s : String} (hs : ∀ c ∈ s.toList, c.isAlphanum = true)
    (ws : List Word) : ∀ c ∈ (s ++ pascalCase ws).toList, c.isAlphanum = true := by
  rw [toList_append_pascalCase]
  refine List.forall_mem_append.mpr ⟨hs, fun c hc => ?_⟩
  obtain ⟨w, -, hw⟩ := List.mem_flatMap.mp hc
  exact w.isAlphanum_capitalized c hw

/-- In a key that starts with a small letter, only `ms` can be the name of a vendor. -/
theorem isVendored_camelCase (w : Word) (ws : List Word) :
    isVendored (camelCase (w :: ws)) = true ↔ ws ≠ [] ∧ w.text = "ms" := by
  obtain ⟨c, d, cs, htext, -, hc, hcs⟩ := w.exists_cons
  rw [isVendored_iff, camelCase, toList_append_pascalCase, htext]
  constructor
  · rintro ⟨v, hv, e, rest, hkey, he⟩
    have hms : v = "ms" := by
      have hhead := congrArg List.head? hkey
      simp only [vendors, List.mem_cons, List.not_mem_nil, or_false] at hv
      rcases hv with rfl | rfl | rfl | rfl
      case inr.inr.inl => rfl
      all_goals
        obtain rfl := Option.some.inj hhead
        exact absurd hc (by decide)
    subst hms
    obtain ⟨rfl, rfl, hrest⟩ : c = 'm' ∧ d = 's' ∧ cs ++ ws.flatMap Word.capitalized = e :: rest := by
      simpa using hkey
    cases cs with
    | nil =>
      refine ⟨fun hnil => ?_, String.toList_injective htext⟩
      rw [hnil] at hrest
      exact absurd hrest (by simp)
    | cons x cs =>
      -- the third letter of the word is small
      obtain ⟨rfl, -⟩ := List.cons.inj hrest
      rw [isUpper_eq_false_of_isLower (hcs x (by simp))] at he
      exact absurd he (by decide)
  · rintro ⟨hws, hms⟩
    obtain ⟨v, vs, rfl⟩ := List.exists_cons_of_ne_nil hws
    obtain ⟨a, b, as, -, hv, ha, -⟩ := v.exists_cons
    refine ⟨"ms", by simp [vendors], a.toUpper, b :: as ++ vs.flatMap Word.capitalized, ?_,
      isUpper_toUpper ha⟩
    rw [← htext, hms, List.flatMap_cons, hv]
    rfl

theorem propertyName_camelCase (w : Word) (ws : List Word) :
    propertyName (camelCase (w :: ws)) =
      (if ws ≠ [] ∧ w.text = "ms" then "-" else "") ++ dashCase (w :: ws) := by
  obtain ⟨c, d, cs, htext, -⟩ := w.exists_cons
  have hwords : nameWordsFrom .fresh [] (camelCase (w :: ws)).toList =
      w.text.toList :: ws.map Word.capitalized := by
    rw [camelCase, toList_append_pascalCase, nameWordsFrom_small ws (by simp [htext]) w.small]
    rfl
  have hkey : ∀ c ∈ (camelCase (w :: ws)).toList, c.isAlphanum = true :=
    isAlphanum_append_pascalCase (fun c hc => isAlphanum_of_isLower (w.small c hc)) ws
  rw [propertyName_of_joined hkey hwords, Word.ofList_map_toLower w.small, dashCase, List.map_cons]
  simp only [isVendored_camelCase]

/-- A key that starts with the name of a vendor. -/
theorem propertyName_vendored {v : String} (hv : v ∈ vendors) {w : Word} {ws : List Word}
    (hletters : ∀ c ∈ v.toList, c.isAlphanum = true)
    (hwords : nameWordsFrom .fresh [] (v ++ pascalCase (w :: ws)).toList =
      v.toList :: (w :: ws).map Word.capitalized) :
    propertyName (v ++ pascalCase (w :: ws)) =
      "-" ++ String.ofList (v.toList.map Char.toLower) ++ "-" ++ dashCase (w :: ws) := by
  have hvendored : isVendored (v ++ pascalCase (w :: ws)) = true := by
    obtain ⟨a, b, as, -, hw, ha, -⟩ := w.exists_cons
    refine isVendored_iff.mpr ⟨v, hv, a.toUpper, b :: as ++ ws.flatMap Word.capitalized, ?_,
      isUpper_toUpper ha⟩
    rw [toList_append_pascalCase, List.flatMap_cons, hw]
    rfl
  rw [propertyName_of_joined (isAlphanum_append_pascalCase hletters (w :: ws)) hwords,
    if_pos hvendored, String.intercalate_cons_of_ne_nil (by simp), dashCase]
  simp only [String.append_assoc]

/-- A capital in front of small letters is the first word of a key. -/
theorem nameWordsFrom_name {c : Char} {small : List Char} (ws : List Word) (hc : c.isUpper = true)
    (hne : small ≠ []) (hsmall : ∀ d ∈ small, d.isLower = true) :
    nameWordsFrom .fresh [] (c :: small ++ ws.flatMap Word.capitalized) =
      (c :: small) :: ws.map Word.capitalized := by
  obtain ⟨d, ds, rfl⟩ := List.exists_cons_of_ne_nil hne
  rw [List.cons_append, List.cons_append,
    nameWordsFrom_capital _ (isCapital_of_isUpper hc) (isSmall_of_isUpper hc), ← List.cons_append,
    nameWordsFrom_small ws hne hsmall]
  rfl

/-- A single capital is the first word of a key too, as the next word has a capital and small letters. -/
theorem nameWordsFrom_initial {c : Char} (w : Word) (ws : List Word) (hc : c.isUpper = true) :
    nameWordsFrom .fresh [] (c :: (w :: ws).flatMap Word.capitalized) =
      [c] :: (w :: ws).map Word.capitalized := by
  obtain ⟨d, e, es, -, hw, hd, hes⟩ := w.exists_cons
  have hupper := isUpper_toUpper hd
  rw [List.flatMap_cons, hw, List.cons_append, List.cons_append,
    nameWordsFrom_capitals _ (isCapital_of_isUpper hc) (isSmall_of_isUpper hc)
      (isCapital_of_isUpper hupper) (isSmall_of_isUpper hupper)
      (isSmall_of_isLower (hes e List.mem_cons_self)),
    ← List.cons_append, nameWordsFrom_small ws (List.cons_ne_nil e es) hes, List.map_cons, hw]
  rfl

/-! ## Names -/

theorem mem_intercalate_dash {ss : List String} {c : Char} (h : c ∈ ("-".intercalate ss).toList) :
    c = '-' ∨ ∃ s ∈ ss, c ∈ s.toList := by
  induction ss with
  | nil => simp at h
  | cons s ss ih =>
    cases ss with
    | nil => exact .inr ⟨s, by simp, by simpa using h⟩
    | cons t ss =>
      rw [String.intercalate_cons_cons, String.toList_append, String.toList_append,
        List.mem_append, List.mem_append] at h
      rcases h with (h | h) | h
      · exact .inr ⟨s, by simp, h⟩
      · exact .inl (by simpa using h)
      · rcases ih h with h | ⟨u, hu, h⟩
        · exact .inl h
        · exact .inr ⟨u, List.mem_cons_of_mem _ hu, h⟩

/-- Words with dashes between them hold dashes, small letters and digits. -/
theorem mem_dashed {key : String} (hascii : ∀ c ∈ key.toList, c.toNat < 0x80) {c : Char}
    (h : c ∈ (dashed key).toList) : c = '-' ∨ c.isAlphanum = true ∧ c.isUpper = false := by
  refine (mem_intercalate_dash h).imp_right ?_
  rintro ⟨s, hs, hc⟩
  obtain ⟨w, hw, rfl⟩ := List.mem_map.mp hs
  obtain ⟨r, hr, hw⟩ := List.mem_flatMap.mp hw
  have hkey : ∀ d ∈ w, d ∈ r ∧ d.toNat < 0x80 := by
    intro d hd
    have hdr := (mem_of_mem_nameWordsFrom hw hd).resolve_left List.not_mem_nil
    exact ⟨hdr, hascii d ((mem_of_mem_runsFrom hr hdr).resolve_left List.not_mem_nil)⟩
  rw [String.toList_ofList, smallWord_of_ascii fun d hd => (hkey d hd).2] at hc
  obtain ⟨d, hd, rfl⟩ := List.mem_map.mp hc
  obtain ⟨hdr, hd⟩ := hkey d hd
  have hgap : (!isAlphanumeric d) = false := notGap_of_mem_runsFrom (by simp) r hr d hdr
  rw [isAlphanumeric_of_ascii hd, Bool.not_eq_false'] at hgap
  exact ⟨isAlphanum_toLower hgap, isUpper_toLower d⟩

/-- A name with a dash and without capitals is not changed any more. -/
theorem propertyName_of_dash {name : String} (hdash : '-' ∈ name.toList)
    (hsmall : ∀ c ∈ name.toList, c.isUpper = false) : propertyName name = name := by
  have hlower : name.toLower = name := by
    have hmap : name.toLower = name.map Char.toLower := rfl
    refine String.toList_injective ?_
    rw [hmap, String.toList_map, map_toLower_of_not_isUpper hsmall]
  rw [propertyName, hlower, List.contains_iff_mem.mpr hdash]
  simp

/-- A name of small letters and digits is one word, and is not changed any more. -/
theorem propertyName_of_dashless {name : String}
    (h : ∀ c ∈ name.toList, c.isAlphanum = true ∧ c.isUpper = false) : propertyName name = name := by
  by_cases hnil : name.toList = []
  · obtain rfl : name = "" := String.toList_injective hnil
    decide
  · have hword : nameWordsFrom .fresh [] name.toList = [name.toList] := by
      have hcapital : ∀ c ∈ name.toList, isCapital c = false := fun c hc => by
        rw [isCapital_of_ascii (ascii_of_isAlphanum (h c hc).1), (h c hc).2]
      have happend : nameWordsFrom .fresh [] (name.toList ++ []) = [name.toList] :=
        nameWordsFrom_append hnil hcapital (by simp)
      rwa [List.append_nil] at happend
    have hvendored : ¬isVendored name = true := by
      rw [isVendored_iff]
      rintro ⟨v, -, c, rest, hname, hc⟩
      rw [(h c (by simp [hname])).2] at hc
      exact absurd hc (by decide)
    have hlower := map_toLower_of_not_isUpper fun c hc => (h c hc).2
    rw [propertyName_of_nameWords hnil (fun c hc => (h c hc).1) hword, if_neg hvendored]
    simp [hlower]

/-- The name of a property is its own name. -/
theorem propertyName_propertyName {key : String} (hascii : ∀ c ∈ key.toList, c.toNat < 0x80) :
    propertyName (propertyName key) = propertyName key := by
  have hsmall : ∀ c ∈ (dashed key).toList, c.isUpper = false := fun c hc => by
    rcases mem_dashed hascii hc with rfl | h
    · decide
    · exact h.2
  by_cases hcustom : (dropLeading ['-', '-'] key.toList).isSome = true
  · have hname : propertyName key = key := by rw [propertyName, if_pos hcustom]
    rw [hname, hname]
  by_cases hdash : key.toList.contains '-' = true
  · have hname : propertyName key = key.map Char.toLower := by
      rw [propertyName, if_neg hcustom, if_pos hdash]
      rfl
    rw [hname]
    refine propertyName_of_dash ?_ fun c hc => ?_
    · rw [String.toList_map]
      exact List.mem_map.mpr ⟨'-', List.contains_iff_mem.mp hdash, rfl⟩
    · rw [String.toList_map] at hc
      obtain ⟨d, -, rfl⟩ := List.mem_map.mp hc
      exact isUpper_toLower d
  by_cases hvendored : isVendored key = true
  · have hname : propertyName key = "-" ++ dashed key := by
      rw [propertyName, if_neg hcustom, if_neg hdash, if_pos hvendored]
    rw [hname]
    refine propertyName_of_dash (by simp) fun c hc => ?_
    rw [String.toList_append, List.mem_append] at hc
    rcases hc with hc | hc
    · obtain rfl : c = '-' := by simpa using hc
      decide
    · exact hsmall c hc
  · have hname : propertyName key = dashed key := by
      rw [propertyName, if_neg hcustom, if_neg hdash, if_neg hvendored]
    rw [hname]
    by_cases hjoined : '-' ∈ (dashed key).toList
    · exact propertyName_of_dash hjoined hsmall
    · exact propertyName_of_dashless fun c hc =>
        (mem_dashed hascii hc).resolve_left fun h => hjoined (h ▸ hc)

/-- The name of a property has the words of the key, and is its own name. A dash stands in front of it
if the key starts with the name of a vendor. -/
theorem propertyName_of_words :
    (∀ ws : List Word, ws ≠ [] → propertyName (camelCase ws) =
      (if 2 ≤ ws.length ∧ ws.head?.map Word.text = some "ms" then "-" else "") ++ dashCase ws) ∧
    (∀ ws : List Word, ws ≠ [] →
      propertyName ("Webkit" ++ pascalCase ws) = "-webkit-" ++ dashCase ws ∧
      propertyName ("Moz" ++ pascalCase ws) = "-moz-" ++ dashCase ws ∧
      propertyName ("O" ++ pascalCase ws) = "-o-" ++ dashCase ws) ∧
    ∀ key : String, (∀ c ∈ key.toList, c.toNat < 0x80) →
      propertyName (propertyName key) = propertyName key := by
  refine ⟨fun ws hws => ?_, fun ws hws => ?_, fun key => propertyName_propertyName⟩
  all_goals obtain ⟨w, ws, rfl⟩ := List.exists_cons_of_ne_nil hws
  · rw [propertyName_camelCase]
    have hlong : 2 ≤ (w :: ws).length ↔ ws ≠ [] := by
      rw [List.length_cons, ← List.length_pos_iff]
      omega
    simp only [hlong, List.head?_cons, Option.map_some, Option.some.injEq]
  · refine ⟨(propertyName_vendored (by simp [vendors]) (by simp) ?_).trans rfl,
      (propertyName_vendored (by simp [vendors]) (by simp) ?_).trans rfl,
      (propertyName_vendored (by simp [vendors]) (by simp) ?_).trans rfl⟩
    all_goals rw [toList_append_pascalCase]
    · rw [show "Webkit".toList = ['W', 'e', 'b', 'k', 'i', 't'] by rfl]
      exact nameWordsFrom_name (w :: ws) (by decide) (by simp) (by simp)
    · rw [show "Moz".toList = ['M', 'o', 'z'] by rfl]
      exact nameWordsFrom_name (w :: ws) (by decide) (by simp) (by simp)
    · exact nameWordsFrom_initial w ws (by decide)

/-- The word `ms` counts as a vendor in front of another word only, and one capital in front of a word is
a word. -/
theorem propertyName_of_words_vendors :
    ∃ ms flex : Word, ms.text = "ms" ∧ flex.text = "flex" ∧
      propertyName (camelCase [ms]) = "ms" ∧ propertyName (camelCase [ms, flex]) = "-ms-flex" ∧
      propertyName ("O" ++ pascalCase [flex, ms]) = "-o-flex-ms" ∧
      propertyName (propertyName "a_B") = propertyName "a_B" := by
  let ms : Word := ⟨"ms", by decide, by simp⟩
  let flex : Word := ⟨"flex", by decide, by simp⟩
  obtain ⟨hcamel, hvendor, hsame⟩ := propertyName_of_words
  refine ⟨ms, flex, rfl, rfl, ?_, ?_, ?_, hsame "a_B" (by simp)⟩
  · exact (hcamel [ms] (by simp)).trans (by decide +kernel)
  · exact (hcamel [ms, flex] (by simp)).trans (by decide +kernel)
  · exact (hvendor [flex, ms] (by simp)).2.2.trans (by decide +kernel)

end BaselineAudit.Component
