import BaselineAudit.Accessibility
import BaselineAudit.Proofs.Pattern.Matching
import BaselineAudit.Proofs.Text.Letters

/-!
# Images without an `alt` attribute

An image is reported unless the text of its tag shows the word `alt` in front of an equals sign. Such
a text can stand in other attributes than `alt`, so an image is passed over for them too.

* `Accessibility.Assigns`: a text shows a word in front of an equals sign, which is what the pattern
  for the start of an attribute finds (`IsPlain.occurs_attributeStart_iff`).
* `Accessibility.allMatches_image`: the tag of an image is found as a whole.
* `Accessibility.assigns_attributes_iff`: which attributes show a word.
* `Accessibility.image_reported_iff`: which images are reported.
-/

namespace BaselineAudit.Accessibility

open Text

/-! ## Words in front of an equals sign -/

/-- A text, which stands behind `before`, shows a word in front of an equals sign: it may be in either
case, blanks may follow it, and no character of a word stands right in front of it. -/
def Assigns (word : String) (before : Option Char) (cs : List Char) : Prop :=
  ∃ front w blanks rest, cs = front ++ ((w ++ blanks) ++ '=' :: rest) ∧
    w.map Char.toLower = word.toList ∧ (∀ c ∈ blanks, isBlank c = true) ∧
    (front.getLast?.or before).any isWordChar = false

/-- A word over small letters that have only two forms. -/
structure IsPlain (word : String) : Prop where
  ne_nil : word.toList ≠ []
  isLower : ∀ c ∈ word.toList, c.isLower = true
  ne_s : 's' ∉ word.toList
  ne_k : 'k' ∉ word.toList

theorem isPlain_alt : IsPlain "alt" := ⟨by simp, by simp, by simp, by simp⟩

section Words

variable {word : String} {before : Option Char}

theorem IsPlain.matches_textAnyCase_iff (hword : IsPlain word) {w rest : List Char} :
    (Pattern.textAnyCase word).Matches before w rest ↔ w.map Char.toLower = word.toList := by
  rw [Pattern.matches_textAnyCase_iff]
  have hd : ∀ d ∈ word.toList, d.isLower = true ∧ d ≠ 's' ∧ d ≠ 'k' := fun d hd =>
    ⟨hword.isLower d hd, fun h => hword.ne_s (h ▸ hd), fun h => hword.ne_k (h ▸ hd)⟩
  generalize word.toList = ds at hd
  induction ds generalizing w with
  | nil => simp
  | cons d ds ih =>
    obtain ⟨⟨hlower, hs, hk⟩, hds⟩ := List.forall_mem_cons.mp hd
    rw [List.forall₂_cons_left_iff, List.map_eq_cons_iff]
    simp only [ih hds, CharSet.contains_anyCase hlower hs hk]
    grind

/-- The first character of a word in either case is a character of a word. -/
theorem IsPlain.any_head? (hword : IsPlain word) {w : List Char}
    (hw : w.map Char.toLower = word.toList) (rest : List Char) :
    (w ++ rest).head?.any isWordChar = true := by
  cases w with
  | nil => exact absurd hw.symm hword.ne_nil
  | cons c w =>
    have hc := hword.isLower c.toLower (hw ▸ List.mem_cons_self)
    refine isWordChar_of_isAlphanum ?_
    rcases (toLower_eq_iff hc).mp rfl with h | h
    · exact isAlphanum_of_isLower (h ▸ hc)
    · exact isAlphanum_of_isUpper (h ▸ isUpper_toUpper hc)

theorem IsPlain.matches_attributeStart_iff (hword : IsPlain word) {found rest : List Char} :
    (attributeStart word).Matches before found rest ↔
      ∃ w blanks, found = (w ++ blanks) ++ ['='] ∧ w.map Char.toLower = word.toList ∧
        (∀ c ∈ blanks, isBlank c = true) ∧ before.any isWordChar = false := by
  have hstart : attributeStart word = .seq .edge (.seq (.textAnyCase word) (.seq .spaces (.text "="))) :=
    rfl
  have hequals : "=".toList = ['='] := rfl
  simp only [hstart, Pattern.matches_seq_iff, Pattern.edge, Pattern.matches_anchor_iff,
    hword.matches_textAnyCase_iff, Pattern.spaces, Pattern.space, Pattern.matches_star_set_iff,
    Pattern.matches_text_iff, hequals, CharSet.contains, Anchor.holds]
  constructor
  · rintro ⟨_, _, rfl, ⟨rfl, hedge⟩, w, _, rfl, hw, blanks, _, rfl, hblanks, rfl⟩
    refine ⟨w, blanks, by simp, hw, hblanks, ?_⟩
    rw [List.append_assoc, hword.any_head? hw] at hedge
    simpa using hedge
  · rintro ⟨w, blanks, rfl, hw, hblanks, hbefore⟩
    refine ⟨[], (w ++ blanks) ++ ['='], rfl, ⟨rfl, ?_⟩, w, blanks ++ ['='], by simp, hw, blanks, _,
      rfl, hblanks, rfl⟩
    rw [List.append_assoc, List.append_assoc, hword.any_head? hw, hbefore]
    rfl

/-- The pattern for the start of an attribute finds a word in front of an equals sign. -/
theorem IsPlain.occurs_attributeStart_iff (hword : IsPlain word) {cs : List Char} :
    (attributeStart word).occurs cs = true ↔ Assigns word none cs := by
  have hconsumes : (attributeStart word).Consumes := by
    intro before rest h
    obtain ⟨w, blanks, hfound, -⟩ := hword.matches_attributeStart_iff.mp h
    exact absurd hfound.symm (by simp)
  simp only [hconsumes.occurs_iff, hword.matches_attributeStart_iff, Assigns, Option.or_none]
  constructor
  · rintro ⟨front, _, rest, rfl, w, blanks, rfl, hw, hblanks, hbefore⟩
    exact ⟨front, w, blanks, rest, by simp, hw, hblanks, hbefore⟩
  · rintro ⟨front, w, blanks, rest, rfl, hw, hblanks, hbefore⟩
    exact ⟨front, _, rest, by simp, w, blanks, rfl, hw, hblanks, hbefore⟩

theorem Assigns.equals_mem {cs : List Char} (h : Assigns word before cs) : '=' ∈ cs := by
  obtain ⟨front, w, blanks, rest, rfl, -⟩ := h
  simp

/-- A word and the blanks behind it hold no other character. -/
theorem notMem_word {x : Char} {w blanks : List Char} (hletter : x.toLower ∉ word.toList)
    (hblank : isBlank x = false) (hw : w.map Char.toLower = word.toList)
    (hblanks : ∀ c ∈ blanks, isBlank c = true) : x ∉ w ++ blanks := by
  rw [List.mem_append]
  rintro (h | h)
  · exact hletter (hw ▸ List.mem_map_of_mem h)
  · rw [hblanks x h] at hblank
    exact absurd hblank (by decide)

/-- A text is cut by a character that can stand neither in the word nor behind it. -/
theorem assigns_append_cons_iff {x : Char} (hletter : x.toLower ∉ word.toList)
    (hblank : isBlank x = false) (hequals : x ≠ '=') {cs ds : List Char} :
    Assigns word before (cs ++ x :: ds) ↔ Assigns word before cs ∨ Assigns word (some x) ds := by
  constructor
  · rintro ⟨front, w, blanks, rest, h, hw, hblanks, hbefore⟩
    have hx : x ∉ (w ++ blanks) ++ ['='] := by
      rw [List.mem_append, List.mem_singleton]
      exact not_or.mpr ⟨notMem_word hletter hblank hw hblanks, hequals⟩
    rw [show (w ++ blanks) ++ '=' :: rest = ((w ++ blanks) ++ ['=']) ++ rest by simp] at h
    -- the word is behind the character or in front of it, as it does not hold it
    rcases List.append_eq_append_iff.mp h with ⟨mid, rfl, hmid⟩ | ⟨mid, rfl, hmid⟩
    · cases mid with
      | nil =>
        have hhead : x ∈ ((w ++ blanks) ++ ['=']) := by
          have hne : (w ++ blanks) ++ ['='] ≠ [] := by simp
          obtain ⟨y, ys, hy⟩ := List.exists_cons_of_ne_nil hne
          rw [hy, List.nil_append, List.cons_append] at hmid
          rw [hy, (List.cons.inj hmid).1]
          exact List.mem_cons_self
        exact absurd hhead hx
      | cons y mid =>
        obtain ⟨rfl, rfl⟩ := List.cons.inj hmid
        refine .inr ⟨mid, w, blanks, rest, by simp, hw, hblanks, ?_⟩
        rwa [Pattern.getLast?_append_or, Pattern.getLast?_cons_or] at hbefore
    · left
      rcases List.append_eq_append_iff.mp hmid with ⟨tail, rfl, -⟩ | ⟨tail, htail, hds⟩
      · exact ⟨front, w, blanks, tail, by simp, hw, hblanks, hbefore⟩
      · cases tail with
        | nil =>
          rw [List.append_nil] at htail
          exact ⟨front, w, blanks, [], by rw [← htail], hw, hblanks, hbefore⟩
        | cons y tail =>
          obtain ⟨rfl, -⟩ := List.cons.inj hds
          exact absurd (htail ▸ by simp) hx
  · rintro (⟨front, w, blanks, rest, rfl, hw, hblanks, hbefore⟩ |
      ⟨front, w, blanks, rest, rfl, hw, hblanks, hbefore⟩)
    · exact ⟨front, w, blanks, rest ++ x :: ds, by simp, hw, hblanks, hbefore⟩
    · refine ⟨cs ++ x :: front, w, blanks, rest, by simp, hw, hblanks, ?_⟩
      rwa [Pattern.getLast?_append_or, Pattern.getLast?_cons_or]

end Words

/-! ## Attributes -/

/-- An attribute with a value in double quotes. -/
structure Attribute where
  name : String
  value : String
  name_ne : name.toList ≠ []
  name_small : ∀ c ∈ name.toList, c.isLower = true ∨ c = '-'
  value_quote : '"' ∉ value.toList
  value_end : '>' ∉ value.toList

/-- An attribute as it is written, behind a blank. -/
def Attribute.text (a : Attribute) : String := " " ++ a.name ++ "=\"" ++ a.value ++ "\""

/-- The tag of an image. -/
def image (attributes : List Attribute) : String :=
  "<img" ++ String.join (attributes.map Attribute.text) ++ ">"

/-- An attribute shows a word in front of an equals sign: it has the word for its name or as the last
part of it behind a dash, or its value shows it. -/
def Attribute.Shows (word : String) (a : Attribute) : Prop :=
  a.name = word ∨ '-' :: word.toList <:+ a.name.toList ∨ Assigns word (some '"') a.value.toList

namespace Attribute

theorem toList_text (a : Attribute) :
    a.text.toList = ' ' :: (a.name.toList ++ '=' :: '"' :: (a.value.toList ++ ['"'])) := by
  simp [text]

theorem name_notMem (a : Attribute) {c : Char} (hlower : c.isLower = false) (hdash : c ≠ '-') :
    c ∉ a.name.toList := by
  intro hc
  rcases a.name_small c hc with h | h
  · rw [h] at hlower
    exact absurd hlower (by decide)
  · exact hdash h

theorem isBlank_of_mem_name (a : Attribute) {c : Char} (hc : c ∈ a.name.toList) :
    isBlank c = false := by
  rcases a.name_small c hc with h | rfl
  · exact isBlank_of_isLower h
  · decide

/-- A part of a name is in small letters. -/
theorem map_toLower_of_suffix (a : Attribute) {w : List Char} (hw : w <:+ a.name.toList) :
    w.map Char.toLower = w := by
  refine map_toLower_of_not_isUpper fun c hc => ?_
  rcases a.name_small c (hw.subset hc) with h | rfl
  · exact isUpper_eq_false_of_isLower h
  · rfl

/-- A name that ends with a word, with no character of a word in front of it. -/
theorem name_eq_or_suffix (a : Attribute) {word : String} {front w : List Char}
    (hname : a.name.toList = front ++ w) (hw : w.map Char.toLower = word.toList)
    (hfront : (front.getLast?.or (some ' ')).any isWordChar = false) :
    a.name = word ∨ '-' :: word.toList <:+ a.name.toList := by
  rw [a.map_toLower_of_suffix ⟨front, hname.symm⟩] at hw
  subst hw
  rcases List.eq_nil_or_concat front with rfl | ⟨ns, n, rfl⟩
  · exact .inl (String.toList_injective hname)
  · rw [List.concat_eq_append] at hname hfront
    rw [List.getLast?_concat, Option.some_or, Option.any_some] at hfront
    obtain rfl : n = '-' := by
      refine (a.name_small n (by rw [hname]; simp)).resolve_left fun hlower => ?_
      rw [isWordChar_of_isAlphanum (isAlphanum_of_isLower hlower)] at hfront
      exact absurd hfront (by decide)
    exact .inr ⟨ns, by rw [hname, List.append_cons]⟩

/-- No blanks stand behind a name, as its last character is none. -/
theorem blanks_eq_nil (a : Attribute) {front u blanks : List Char}
    (h : front ++ a.name.toList = u ++ blanks) (hblanks : ∀ c ∈ blanks, isBlank c = true) :
    blanks = [] := by
  rcases List.eq_nil_or_concat blanks with hnil | ⟨bs, b, rfl⟩
  · exact hnil
  · obtain ⟨ns, n, hn⟩ := (List.eq_nil_or_concat a.name.toList).resolve_left a.name_ne
    have hblank := a.isBlank_of_mem_name (hn ▸ by simp : n ∈ a.name.toList)
    rw [hn, List.concat_eq_append, List.concat_eq_append, ← List.append_assoc,
      ← List.append_assoc] at h
    obtain rfl := List.singleton_inj.mp (List.append_inj' h rfl).2
    rw [hblanks n (by simp)] at hblank
    exact absurd hblank (by decide)

end Attribute

/-- In front of the equals sign behind the name of an attribute stands the word, or a name that ends
with it. -/
theorem assigns_name_iff {word : String} (hword : IsPlain word) (a : Attribute)
    {before : Option Char} {front : List Char} (hfront : '=' ∉ front) :
    Assigns word before (front ++ ' ' :: (a.name.toList ++ ['='])) ↔
      a.name = word ∨ '-' :: word.toList <:+ a.name.toList := by
  constructor
  · rintro ⟨front', w, blanks, rest, h, hw, hblanks, hbefore⟩
    have hequals : '=' ∉ front ++ ' ' :: a.name.toList := by
      rw [List.mem_append, List.mem_cons]
      rintro (h | h | h)
      · exact hfront h
      · exact absurd h (by decide)
      · exact a.name_notMem (by decide) (by decide) h
    rw [← List.cons_append, ← List.append_assoc, ← List.append_assoc] at h
    obtain ⟨h, -, -⟩ := (List.append_cons_inj_of_notMem hequals List.not_mem_nil).mp h
    have hnil : blanks = [] := by
      rw [← List.append_assoc, List.append_cons] at h
      exact a.blanks_eq_nil h hblanks
    subst hnil
    have hspace : ' ' ∉ w := fun hmem =>
      absurd (hword.isLower _ (hw ▸ List.mem_map_of_mem hmem)) (by decide)
    rw [List.append_nil] at h
    -- the word does not reach over the blank in front of the name
    rcases List.append_eq_append_iff.mp h with ⟨mid, rfl, hmid⟩ | ⟨mid, -, rfl⟩
    · cases mid with
      | nil =>
        rw [List.nil_append] at hmid
        exact absurd (hmid ▸ List.mem_cons_self) hspace
      | cons x mid =>
        rw [List.cons_append] at hmid
        obtain ⟨rfl, hname⟩ := List.cons.inj hmid
        rw [Pattern.getLast?_append_or, Pattern.getLast?_cons_or] at hbefore
        exact a.name_eq_or_suffix hname hw hbefore
    · exact absurd (by simp) hspace
  · rintro (rfl | ⟨ns, hns⟩)
    · exact ⟨front ++ [' '], a.name.toList, [], [], by simp, a.map_toLower_of_suffix List.suffix_rfl,
        by simp, by simp; decide⟩
    · refine ⟨(front ++ ' ' :: ns) ++ ['-'], word.toList, [], [], by simp [← hns], ?_, by simp, ?_⟩
      · exact a.map_toLower_of_suffix ⟨ns ++ ['-'], by simp [← hns]⟩
      · rw [List.getLast?_concat]
        rfl

/-- Of attributes one behind the other, and text without an equals sign in front of them, only the
attributes show a word. -/
theorem assigns_attributes_iff {word : String} (hword : IsPlain word) (attributes : List Attribute)
    {before : Option Char} {front : List Char} (hfront : '=' ∉ front) :
    Assigns word before (front ++ (attributes.flatMap (·.text.toList) ++ ['>'])) ↔
      ∃ a ∈ attributes, a.Shows word := by
  induction attributes generalizing before front with
  | nil =>
    refine ⟨fun h => absurd h.equals_mem ?_, by simp⟩
    simpa using hfront
  | cons a attributes ih =>
    have hletter : '"'.toLower ∉ word.toList := fun hmem =>
      absurd (hword.isLower _ hmem) (by decide)
    have hcut {before : Option Char} {cs ds : List Char} :
        Assigns word before (cs ++ '"' :: ds) ↔ Assigns word before cs ∨ Assigns word (some '"') ds :=
      assigns_append_cons_iff hletter (by decide) (by decide)
    have hparts : front ++ ((a :: attributes).flatMap (·.text.toList) ++ ['>']) =
        (front ++ ' ' :: (a.name.toList ++ ['='])) ++ '"' ::
          (a.value.toList ++ '"' :: ([] ++ (attributes.flatMap (·.text.toList) ++ ['>']))) := by
      simp [a.toList_text]
    rw [hparts, hcut, hcut, assigns_name_iff hword a hfront, ih List.not_mem_nil,
      List.exists_mem_cons_iff, Attribute.Shows]
    simp only [or_assoc]

/-! ## Tags -/

section Tags

variable {before : Option Char}

/-- Two texts with the same character behind them, which they do not hold, are the same. -/
theorem append_cons_left_inj {x : Char} {as bs cs ds : List Char} (h : as ++ x :: cs = bs ++ x :: ds)
    (ha : x ∉ as) (hb : x ∉ bs) : as = bs := by
  rcases List.append_eq_append_iff.mp h with ⟨mid, rfl, hmid⟩ | ⟨mid, rfl, hmid⟩
  all_goals
    cases mid with
    | nil => simp
    | cons y mid =>
      rw [List.cons_append] at hmid
      obtain ⟨rfl, -⟩ := List.cons.inj hmid
      simp at ha hb

theorem matches_openTag_iff {name : String} {found rest : List Char} :
    (openTag name).Matches before found rest ↔
      ∃ w body, found = ('<' :: w) ++ (body ++ ['>']) ∧
        List.Forall₂ (fun c d => (CharSet.anyCase c).contains d = true) name.toList w ∧
        Anchor.wordEdge.holds (w.getLast?.or (some '<')) (body ++ ['>']).head? = true ∧ '>' ∉ body := by
  have htag : openTag name = .seq (.text "<") (.seq (.textAnyCase name) (.seq .edge
      (.seq (.star (.set (.except ">"))) (.text ">")))) := rfl
  have hopen : "<".toList = ['<'] := rfl
  have hclose : ">".toList = ['>'] := rfl
  simp only [htag, Pattern.matches_seq_iff, Pattern.edge, Pattern.matches_anchor_iff,
    Pattern.matches_textAnyCase_iff, Pattern.matches_star_set_iff, Pattern.matches_text_iff, hopen,
    hclose, CharSet.contains_except]
  have hhead (body : List Char) : ((body ++ ['>']) ++ rest).head? = (body ++ ['>']).head? := by
    cases body <;> rfl
  constructor
  · rintro ⟨_, _, rfl, rfl, w, _, rfl, hw, _, _, rfl, ⟨rfl, hedge⟩, body, _, rfl, hbody, rfl⟩
    rw [hhead] at hedge
    exact ⟨w, body, by simp, hw, hedge, fun hmem => absurd (hbody _ hmem) (by decide)⟩
  · rintro ⟨w, body, rfl, hw, hedge, hbody⟩
    refine ⟨['<'], w ++ (body ++ ['>']), rfl, rfl, w, body ++ ['>'], rfl, hw, [], body ++ ['>'], rfl,
      ⟨rfl, ?_⟩, body, ['>'], rfl, fun c hc => ?_, rfl⟩
    · rw [hhead]
      exact hedge
    · have hne : c ≠ '>' := fun h => hbody (h ▸ hc)
      simpa using hne

theorem startsWith_openTag (name : String) : (openTag name).StartsWith '<' := by
  intro before found rest h
  obtain ⟨w, body, rfl, -⟩ := matches_openTag_iff.mp h
  rfl

/-- A tag ends at its first closing bracket, so there is one way to find it at its place. -/
theorem openTag_unique {name : String} {u v found rest : List Char} (h : u ++ v = found ++ rest)
    (hu : (openTag name).Matches before u v) (hfound : (openTag name).Matches before found rest) :
    u = found := by
  obtain ⟨w₁, body₁, rfl, hw₁, -, hbody₁⟩ := matches_openTag_iff.mp hu
  obtain ⟨w₂, body₂, rfl, hw₂, -, hbody₂⟩ := matches_openTag_iff.mp hfound
  have hlength : ('<' :: w₁).length = ('<' :: w₂).length := by
    rw [List.length_cons, List.length_cons, ← hw₁.length_eq, ← hw₂.length_eq]
  simp only [List.append_assoc, List.singleton_append] at h
  obtain ⟨hw, h⟩ := List.append_inj h hlength
  rw [hw, append_cons_left_inj h hbody₁ hbody₂]

end Tags

/-! ## Images -/

theorem toList_image (attributes : List Attribute) :
    (image attributes).toList =
      ('<' :: ['i', 'm', 'g']) ++ (attributes.flatMap (·.text.toList) ++ ['>']) := by
  simp [image, String.toList_join, List.flatMap_map]

theorem end_notMem_attributes (attributes : List Attribute) :
    '>' ∉ attributes.flatMap (·.text.toList) := by
  rw [List.mem_flatMap]
  rintro ⟨a, -, h⟩
  have hname := a.name_notMem (c := '>') (by decide) (by decide)
  have hvalue := a.value_end
  rw [a.toList_text] at h
  simp [hname, hvalue] at h

theorem matches_image (attributes : List Attribute) (before : Option Char) (rest : List Char) :
    (openTag "img").Matches before (image attributes).toList rest := by
  rw [matches_openTag_iff]
  refine ⟨['i', 'm', 'g'], _, toList_image attributes, ?_, ?_, end_notMem_attributes attributes⟩
  · exact .cons (by decide) (.cons (by decide) (.cons (by decide) .nil))
  · cases attributes with
    | nil => decide
    | cons a attributes =>
      rw [List.flatMap_cons, a.toList_text]
      rfl

/-- In text that opens no other tag, the tag of an image is found as a whole. -/
theorem allMatches_image (attributes : List Attribute) {before after : List Char}
    (hbefore : '<' ∉ before) (hafter : '<' ∉ after) :
    (openTag "img").allMatches (before ++ ((image attributes).toList ++ after)) =
      [⟨(image attributes).toList, after⟩] := by
  have hstarts := startsWith_openTag "img"
  have hne : (image attributes).toList ≠ [] := by
    rw [toList_image]
    exact List.cons_ne_nil _ _
  have hfind := Pattern.find?_eq_of_unique hne
    (matches_image attributes (before.getLast?.or none) after)
    fun u v h hu => openTag_unique h hu (matches_image attributes _ after)
  have hpos : 0 < (before ++ ((image attributes).toList ++ after)).length := by
    have := List.length_pos_iff.mpr hne
    simp only [List.length_append]
    omega
  rw [Pattern.allMatches, ← Nat.succ_pred_eq_of_pos hpos, Pattern.matchesFrom,
    hstarts.find?_append _ hbefore, hfind]
  simp only [hstarts.matchesFrom_eq_nil hafter]

/-- A report holds the breach of a rule exactly if the markup breaks it. -/
theorem breach_mem_check_iff (markup : String) (r : Rule) :
    r.breach ∈ (check markup).breaches ↔ r.isBrokenBy markup = true := by
  have hall : r ∈ Rule.all := by cases r <;> decide
  have hbreaches : (check markup).breaches =
      (Rule.all.filter (·.isBrokenBy markup)).map Rule.breach := rfl
  rw [hbreaches, List.mem_map]
  constructor
  · rintro ⟨s, hs, h⟩
    obtain rfl : s = r := congrArg Breach.rule h
    exact (List.mem_filter.mp hs).2
  · intro h
    exact ⟨r, List.mem_filter.mpr ⟨hall, h⟩, rfl⟩

/-- In text that opens no other tag, an image is reported exactly if none of its attributes shows
the word `alt` in front of an equals sign. -/
theorem image_reported_iff (attributes : List Attribute) {before after : String}
    (hbefore : '<' ∉ before.toList) (hafter : '<' ∉ after.toList) :
    Rule.imgAlt.breach ∈ (check (before ++ image attributes ++ after)).breaches ↔
      ∀ a ∈ attributes, ¬a.Shows "alt" := by
  have hshows : (attributeStart "alt").occurs (image attributes).toList = true ↔
      ∃ a ∈ attributes, a.Shows "alt" := by
    rw [isPlain_alt.occurs_attributeStart_iff, toList_image]
    exact assigns_attributes_iff isPlain_alt attributes (by decide)
  rw [breach_mem_check_iff, Rule.isBrokenBy, String.toList_append, String.toList_append,
    List.append_assoc, allMatches_image attributes hbefore hafter]
  simp only [List.any_cons, List.any_nil, Bool.or_false, Bool.not_eq_true', ← Bool.not_eq_true, hshows,
    not_exists, not_and]

/-- A name that only ends with the letters of the word, and a value in which no equals sign follows it,
do not hide an image. -/
theorem image_reported_salt :
    ∃ a b : Attribute, a.name = "salt" ∧ b.value = "alt x=" ∧ ¬a.Shows "alt" ∧ ¬b.Shows "alt" ∧
      Rule.imgAlt.breach ∈ (check ("1 " ++ image [a, b] ++ " 2")).breaches := by
  let a : Attribute := ⟨"salt", "", by simp, by simp, by simp, by simp⟩
  let b : Attribute := ⟨"title", "alt x=", by simp, by simp, by simp, by simp⟩
  have hbroken : Rule.imgAlt.breach ∈ (check ("1 " ++ image [a, b] ++ " 2")).breaches := by
    decide +kernel
  have hshows := (image_reported_iff [a, b] (by simp) (by simp)).mp hbroken
  exact ⟨a, b, rfl, rfl, hshows a (by simp), hshows b (by simp), hbroken⟩

/-- An attribute whose name ends with the word behind a dash, and one whose value shows it, hide an
image that has no `alt` attribute. -/
theorem image_hidden_data_alt :
    ∃ a b : Attribute, a.name = "data-alt" ∧ b.name = "title" ∧
      Rule.imgAlt.breach ∉ (check (image [a])).breaches ∧
      Rule.imgAlt.breach ∉ (check (image [b])).breaches := by
  let a : Attribute := ⟨"data-alt", "x", by simp, by simp, by simp, by simp⟩
  let b : Attribute := ⟨"title", "alt=x", by simp, by simp, by simp, by simp⟩
  exact ⟨a, b, rfl, rfl, by decide +kernel, by decide +kernel⟩

end BaselineAudit.Accessibility
