import BaselineAudit.Proofs.Css.Declarations
import BaselineAudit.Proofs.Parsing.Longest
import Mathlib.Data.List.Infix

/-!
# Comments of style sheets

A comment ends at the first `*/` behind its opening.

* `Css.IsComment`: a text that is one comment.
* `Css.takes_comment_iff`: these are the texts that the token for comments takes.
* `Css.lexToken_comment`: where comments are looked for, a comment at the end of a line is read as a
  whole.
* `Css.outside`: the text outside of comments. A comment adds nothing to it (`Css.outside_comment`).
-/

namespace BaselineAudit.Css

open Parsing

/-! ## Texts that are comments -/

/-- The end of a comment. -/
def commentEnd : List Char := ['*', '/']

/-- A text that ends a comment, and only at its own end. -/
def Closes (cs : List Char) : Prop := ∃ body, cs = body ++ commentEnd ∧ ¬commentEnd <:+: body

/-- A text that is one comment. -/
def IsComment (cs : List Char) : Prop := ∃ body, cs = '/' :: '*' :: body ∧ Closes body

theorem commentEnd_prefix_cons {c : Char} {cs : List Char} :
    commentEnd <+: c :: cs ↔ c = '*' ∧ cs.head? = some '/' := by
  rw [commentEnd, List.cons_prefix_cons]
  cases cs with
  | nil => simp
  | cons d cs => simp [List.cons_prefix_cons, eq_comm]

theorem commentEnd_infix_cons {c : Char} {cs : List Char} :
    commentEnd <:+: c :: cs ↔ (c = '*' ∧ cs.head? = some '/') ∨ commentEnd <:+: cs := by
  rw [List.infix_cons_iff, commentEnd_prefix_cons]

theorem closes_cons_iff (c : Char) (cs : List Char) :
    Closes (c :: cs) ↔
      (c = '*' ∧ cs = ['/']) ∨ (¬(c = '*' ∧ cs.head? = some '/') ∧ Closes cs) := by
  constructor
  · rintro ⟨body, hcs, hbody⟩
    cases body with
    | nil => exact .inl (by simpa [commentEnd] using hcs)
    | cons d body =>
      obtain ⟨rfl, rfl⟩ := List.cons.inj hcs
      rw [commentEnd_infix_cons, not_or] at hbody
      refine .inr ⟨fun h => hbody.1 ⟨h.1, ?_⟩, body, rfl, hbody.2⟩
      cases body with
      | nil => exact absurd h.2 (by decide)
      | cons e body => exact h.2
  · rintro (⟨rfl, rfl⟩ | ⟨hne, body, rfl, hbody⟩)
    · exact ⟨[], rfl, by decide⟩
    · refine ⟨c :: body, rfl, ?_⟩
      rw [commentEnd_infix_cons, not_or]
      refine ⟨fun h => hne ⟨h.1, ?_⟩, hbody⟩
      cases body with
      | nil => exact absurd h.2 (by simp)
      | cons e body => exact h.2

theorem not_closes_nil : ¬Closes [] := by
  rintro ⟨body, h, -⟩
  exact absurd h (by simp [commentEnd])

/-- The end of the comment stands nowhere else in the text. -/
theorem Closes.end_iff {cs : List Char} (h : Closes cs) (i : Nat) :
    commentEnd <+: cs.drop i ↔ i + 2 = cs.length := by
  induction cs generalizing i with
  | nil => exact absurd h not_closes_nil
  | cons c cs ih =>
    rcases (closes_cons_iff c cs).mp h with ⟨rfl, rfl⟩ | ⟨hne, hcs⟩
    · rcases i with _ | _ | i
      · decide
      · decide
      · simp [commentEnd]
    · cases i with
      | zero =>
        have hlength : 2 ≤ cs.length := by
          obtain ⟨body, rfl, -⟩ := hcs
          simp [commentEnd]
        rw [List.drop_zero, commentEnd_prefix_cons, List.length_cons]
        exact iff_of_false hne (by omega)
      | succ i =>
        rw [List.drop_succ_cons, ih hcs, List.length_cons]
        omega

theorem Closes.head?_eq {cs u : List Char} {c : Char} {v : List Char} (hc : Closes cs)
    (h : cs ++ u = c :: v) : cs.head? = some c := by
  cases cs with
  | nil => exact absurd hc not_closes_nil
  | cons d cs => rw [List.head?_cons, (List.cons.inj h).1]

/-- Of the texts at one place only one closes the comment. -/
theorem Closes.unique {cs ds u v : List Char} (hc : Closes cs) (hd : Closes ds)
    (h : cs ++ u = ds ++ v) : cs = ds := by
  induction cs generalizing ds with
  | nil => exact absurd hc not_closes_nil
  | cons c cs ih =>
    cases ds with
    | nil => exact absurd hd not_closes_nil
    | cons d ds =>
      obtain ⟨rfl, hrest⟩ := List.cons.inj h
      rw [closes_cons_iff] at hc hd
      rcases hc with ⟨hstar, rfl⟩ | ⟨hc, hcs⟩ <;> rcases hd with ⟨hstar', rfl⟩ | ⟨hd, hds⟩
      · rfl
      · exact absurd ⟨hstar, hds.head?_eq hrest.symm⟩ hd
      · exact absurd ⟨hstar', hcs.head?_eq hrest⟩ hc
      · rw [ih hcs hds hrest]

/-! ## The token for comments -/

section Token

open Pattern Lexicon

/-- A part of a comment from a character that is no star up to the stars behind it. -/
def commentTurn : Pattern :=
  all [set (.except "/*"), star (set (.except "*")), plus (text "*")]

/-- What the token for comments takes behind stars. -/
def afterStars : Pattern := all [star (text "*"), star commentTurn, text "/"]

/-- What the token for comments takes behind the opening. -/
def afterOpening : Pattern :=
  all [star (set (.except "*")), plus (text "*"), star commentTurn, text "/"]

theorem derivatives_afterOpening (c : Char) :
    derivatives c afterOpening = if c = '*' then [afterStars] else [afterOpening] := by
  by_cases hstar : c = '*'
  · subst hstar
    rfl
  · simp [derivatives, afterOpening, all, Pattern.step, CharSet.contains, hstar, Ne.symm hstar,
      followedBy, plus, Pattern.text]

theorem derivatives_afterStars (c : Char) :
    derivatives c afterStars =
      if c = '*' then [afterStars] else if c = '/' then [empty]
      else [seq (seq (seq (star (set (.except "*"))) (plus (text "*"))) (star commentTurn)) (text "/")] := by
  by_cases hstar : c = '*'
  · subst hstar
    rfl
  · by_cases hslash : c = '/'
    · subst hslash
      rfl
    · simp [derivatives, afterStars, commentTurn, all, Pattern.step, CharSet.contains, hstar,
        Ne.symm hstar, hslash, Ne.symm hslash, followedBy, plus, Pattern.text]

/-- Behind the opening, the token takes a text that closes the comment. -/
theorem takes_afterOpening_iff (cs : List Char) :
    (afterOpening.Takes cs ↔ Closes cs) ∧ (afterStars.Takes cs ↔ Closes ('*' :: cs)) := by
  have hfree : afterOpening.isFree = true ∧ afterStars.isFree = true := ⟨rfl, rfl⟩
  induction cs with
  | nil =>
    have hdone : isDone afterOpening = false ∧ isDone afterStars = false := ⟨rfl, rfl⟩
    rw [← isDone_iff, ← isDone_iff, hdone.1, hdone.2]
    simp [closes_cons_iff, not_closes_nil]
  | cons c cs ih =>
    rw [takes_cons_iff hfree.1, takes_cons_iff hfree.2, derivatives_afterOpening,
      derivatives_afterStars]
    by_cases hstar : c = '*'
    · subst hstar
      simp [ih.2, closes_cons_iff '*' ('*' :: cs)]
    · by_cases hslash : c = '/'
      · subst hslash
        simp [ih.1, closes_cons_iff]
      · have hassoc : ∀ {w}, Takes (seq (seq (seq (star (set (.except "*"))) (plus (text "*")))
            (star commentTurn)) (text "/")) w ↔ afterOpening.Takes w :=
          matches_seq_assoc.trans matches_seq_assoc
        simp [hstar, hslash, hassoc, ih.1, closes_cons_iff]

/-- The token for comments takes the texts that are comments. -/
theorem takes_comment_iff {cs : List Char} : comment.Takes cs ↔ IsComment cs := by
  have hcomment : comment = seq (text "/*") afterOpening := rfl
  have hfree : afterOpening.isFree = true := rfl
  rw [hcomment, Takes, matches_seq_iff]
  constructor
  · rintro ⟨u, v, rfl, hu, hv⟩
    rw [matches_text_iff] at hu
    subst hu
    exact ⟨v, rfl, (takes_afterOpening_iff v).1.mp ((takes_iff_matches hfree).mpr hv)⟩
  · rintro ⟨body, rfl, hbody⟩
    refine ⟨"/*".toList, body, rfl, matches_text_iff.mpr rfl, ?_⟩
    exact (takes_iff_matches hfree).mp ((takes_afterOpening_iff body).1.mpr hbody)

/-! ## Contents of strings -/

/-- A character of a string, or two if the first one is a backslash. -/
def stringPiece (quote : String) : Pattern :=
  any [set (.except ("\\\n" ++ quote)), all [text "\\", set (.compl .none)]]

theorem stringPiece_matches {quote : String} {before : Option Char} {w rest : List Char}
    (h : Matches (stringPiece quote) before w rest) :
    (∃ c, w = [c] ∧ c ≠ '\n') ∨ ∃ c, w = ['\\', c] := by
  rcases matches_alt_iff.mp h with h | h
  · obtain ⟨c, hc, rfl⟩ := matches_set_iff.mp h
    refine .inl ⟨c, rfl, ?_⟩
    rintro rfl
    simp at hc
  · obtain ⟨u, v, rfl, hu, hv⟩ := matches_seq_iff.mp h
    obtain ⟨c, -, rfl⟩ := matches_set_iff.mp hv
    rw [matches_text_iff] at hu
    exact .inr ⟨c, by rw [hu]; rfl⟩

/-- Each newline stands behind a backslash. -/
def EscapesNewlines (w : List Char) : Prop := ∀ u v, w = u ++ '\n' :: v → u.getLast? = some '\\'

theorem EscapesNewlines.cons {c : Char} {w : List Char} (hw : EscapesNewlines w)
    (hc : c ≠ '\n') : EscapesNewlines (c :: w) := by
  intro u v h
  cases u with
  | nil => exact absurd (List.cons.inj h).1 hc
  | cons d u => rw [List.getLast?_cons, hw u v (List.cons.inj h).2]; rfl

theorem EscapesNewlines.piece {quote : String} {before : Option Char} {w rest v : List Char}
    (h : Matches (stringPiece quote) before w rest) (hv : EscapesNewlines v) :
    EscapesNewlines (w ++ v) := by
  rcases stringPiece_matches h with ⟨c, rfl, hc⟩ | ⟨c, rfl⟩
  · exact hv.cons hc
  · intro x y hxy
    cases x with
    | nil => exact absurd (List.cons.inj hxy).1 (by decide)
    | cons d x =>
      obtain ⟨rfl, hrest⟩ := List.cons.inj hxy
      cases x with
      | nil => rfl
      | cons e x => rw [List.getLast?_cons, List.getLast?_cons, hv x y (List.cons.inj hrest).2]; rfl

theorem escapesNewlines_of_star {quote : String} {before : Option Char} {w rest : List Char}
    (h : Matches (star (stringPiece quote)) before w rest) : EscapesNewlines w := by
  generalize hp : star (stringPiece quote) = p at h
  induction h with
  | stop => exact fun u v hw => absurd hw (by simp)
  | more hne hu hv _ ih =>
    obtain rfl := Pattern.star.inj hp
    exact .piece hu (ih hp)
  | _ => exact absurd hp (by simp)

/-- A newline in the content of a string stands behind a backslash. -/
theorem escapesNewlines_of_takes {quote : String} {w : List Char}
    (h : (stringContent quote).Takes w) : EscapesNewlines w := by
  have hcontent : stringContent quote = seq (stringPiece quote) (star (stringPiece quote)) := rfl
  rw [hcontent, Takes, matches_seq_iff] at h
  obtain ⟨u, v, rfl, hu, hv⟩ := h
  exact .piece hu (escapesNewlines_of_star hv)

end Token

/-! ## Reading comments -/

/-- The comment ends with a slash. -/
theorem IsComment.getLast?_eq {cs : List Char} (h : IsComment cs) : cs.getLast? = some '/' := by
  obtain ⟨_, rfl, body, rfl, -⟩ := h
  simp [commentEnd, List.getLast?_cons]

/-- At one place there is only one comment. -/
theorem IsComment.unique {cs ds u v : List Char} (hc : IsComment cs) (hd : IsComment ds)
    (h : cs ++ u = ds ++ v) : cs = ds := by
  obtain ⟨body, rfl, hbody⟩ := hc
  obtain ⟨body', rfl, hbody'⟩ := hd
  rw [hbody.unique hbody' (List.cons.inj (List.cons.inj h).2).2]

/-- Patterns have no anchors, tokens that start with a slash have no precedence of their own, and those
that start like a comment are comments and contents of strings. -/
theorem tokens_checked :
    ∀ t ∈ grammar.productions.tokens, t.pattern.isFree = true ∧
      (Lexicon.derivatives '/' t.pattern = [] ∨ t.precedence ≤ 0) ∧
      ((Lexicon.derivatives '/' t.pattern).flatMap (Lexicon.derivatives '*') = [] ∨
        t.pattern = comment ∧ t.label = some ⟨"comment", true⟩ ∨
        (t.pattern = stringContent "'" ∨ t.pattern = stringContent "\"") ∧
          t.label = some ⟨"string_content", true⟩) ∧
      (t.id = "comment" → t.pattern = comment ∧ t.precedence = 0) := by
  decide +kernel

theorem isFree_token {t : Token} (ht : t ∈ grammar.productions.tokens) : t.pattern.isFree = true :=
  (tokens_checked t ht).1

/-- A token that starts like a comment is one, or the content of a string. -/
theorem opens_comment {t : Token} (ht : t ∈ grammar.productions.tokens) {w : List Char}
    (hw : t.pattern.Takes ('/' :: '*' :: w)) :
    t.pattern = comment ∧ t.label = some ⟨"comment", true⟩ ∨
      (t.pattern = stringContent "'" ∨ t.pattern = stringContent "\"") ∧
        t.label = some ⟨"string_content", true⟩ := by
  refine (tokens_checked t ht).2.2.1.resolve_left fun hnone => ?_
  obtain ⟨p, hp, hw⟩ := (Lexicon.takes_cons_iff (isFree_token ht)).mp hw
  obtain ⟨q, hq, -⟩ :=
    (Lexicon.takes_cons_iff (Lexicon.isFree_of_mem_derivatives (isFree_token ht) hp)).mp hw
  exact List.eq_nil_iff_forall_not_mem.mp hnone q (List.mem_flatMap.mpr ⟨p, hp, hq⟩)

/-- No token takes more than a comment at the end of a line. -/
theorem length_le_of_comment {cs rest : List Char} (hcs : IsComment cs) {t : Token}
    (ht : t ∈ grammar.productions.tokens) {u v : List Char} (huv : cs ++ '\n' :: rest = u ++ v)
    (hu : t.pattern.Takes u) : u.length ≤ cs.length := by
  rcases List.append_eq_append_iff.mp huv with ⟨x, rfl, hx⟩ | ⟨x, rfl, -⟩
  · cases x with
    | nil => simp
    | cons c x =>
      -- a longer one would take the newline too
      obtain ⟨rfl, -⟩ := List.cons.inj hx
      obtain ⟨body, rfl, -⟩ := id hcs
      rcases opens_comment ht hu with ⟨hpattern, -⟩ | ⟨hpattern, -⟩
      · rw [hpattern] at hu
        have heq := hcs.unique (takes_comment_iff.mp hu) huv
        exact absurd (congrArg List.length heq) (by simp)
      · obtain ⟨quote, hquote⟩ : ∃ quote, t.pattern = stringContent quote :=
          hpattern.elim (fun h => ⟨_, h⟩) fun h => ⟨_, h⟩
        rw [hquote] at hu
        have hlast := hcs.getLast?_eq.symm.trans (escapesNewlines_of_takes hu _ _ rfl)
        exact absurd hlast (by decide)
  · simp

/-- Where comments are looked for, a comment at the end of a line is read as a whole: as a comment, or
as the content of a string if that is looked for too. -/
theorem lexToken_comment {mode : LexMode}
    (hmode : mode.looksFor grammar.productions "comment" = true) {cs : List Char} (hcs : IsComment cs)
    (passed : Extent) (rest : List Char) :
    let p : Place := ⟨passed, cs ++ '\n' :: rest⟩
    let r := language.get.lexToken mode p
    ∃ n, r.found = some (n, ⟨passed + .ofChars cs, '\n' :: rest⟩) ∧ r.start = p ∧
      (Tree.labelOf grammar.productions (.symbol n) = some ⟨"comment", true⟩ ∨
        Tree.labelOf grammar.productions (.symbol n) = some ⟨"string_content", true⟩) := by
  intro p r
  obtain ⟨i, t, hi, ht, hid⟩ := LexMode.looksFor_iff.mp hmode
  have hmem := Array.mem_of_getElem? ht
  obtain ⟨hpattern, hprecedence⟩ := (tokens_checked t hmem).2.2.2 hid
  have htakes : t.pattern.Takes cs := by
    rw [hpattern]
    exact takes_comment_iff.mpr hcs
  obtain ⟨body, rfl, -⟩ := id hcs
  rw [← grammar_eq] at hi ht
  obtain ⟨k, u, hu, hutakes, hfound, hstart⟩ := Language.lexToken_longest takesText
    (by rw [grammar_eq]; exact fun t ht => isFree_token ht) (p := p) rfl (by decide)
    (by rw [grammar_eq]; rfl) hi ht htakes
    (by rw [grammar_eq]; exact fun t ht u v => length_le_of_comment hcs ht)
    (by
      rw [grammar_eq, hprecedence]
      exact fun t ht hne => (tokens_checked t ht).2.1.resolve_left hne)
  rw [grammar_eq] at hu hfound
  refine ⟨_, hfound, hstart, ?_⟩
  rw [Grammar.labelOf_tokenSymbol grammar hu]
  exact (opens_comment (Array.mem_of_getElem? hu) hutakes).imp And.right And.right

/-- The scanner finds nothing where a comment starts. -/
theorem scan_comment {cs : List Char} (hcs : IsComment cs) (memory : Unit) (wanted : NatSet)
    (passed : Extent) (rest : List Char) : scan memory wanted ⟨passed, cs ++ rest⟩ = none := by
  obtain ⟨body, rfl, -⟩ := hcs
  rw [List.cons_append]
  generalize '*' :: body ++ rest = cs
  have hmark : Language.skipMark ⟨passed, '/' :: cs⟩ = ⟨passed, '/' :: cs⟩ :=
    Language.skipMark_eq (by simp [Place.head?])
  have hblank : isBlank '/' = false := by decide
  unfold scan scanColon
  simp [hmark, Place.skipWhile, hblank, Place.head?]

/-! ## Text outside of comments -/

/-- The text outside of comments, from outside or from within a comment on. A comment without an end
reaches up to the end of the text. -/
def outsideFrom : (inside : Bool) → List Char → List Char
  | false, '/' :: '*' :: cs => outsideFrom true cs
  | true, '*' :: '/' :: cs => outsideFrom false cs
  | false, c :: cs => c :: outsideFrom false cs
  | true, _ :: cs => outsideFrom true cs
  | _, [] => []

/-- The text outside of comments. -/
def outside (cs : List Char) : List Char := outsideFrom false cs

theorem outsideFrom_false_cons {c : Char} {cs : List Char} (h : ¬(c = '/' ∧ cs.head? = some '*')) :
    outsideFrom false (c :: cs) = c :: outsideFrom false cs := by
  rw [outsideFrom]
  rintro ds rfl rfl
  exact h ⟨rfl, rfl⟩

theorem outsideFrom_true_cons {c : Char} {cs : List Char} (h : ¬(c = '*' ∧ cs.head? = some '/')) :
    outsideFrom true (c :: cs) = outsideFrom true cs := by
  rw [outsideFrom]
  rintro ds rfl rfl
  exact h ⟨rfl, rfl⟩

/-- From within a comment one comes to its end. -/
theorem outsideFrom_closes {cs : List Char} (h : Closes cs) (rest : List Char) :
    outsideFrom true (cs ++ rest) = outsideFrom false rest := by
  induction cs with
  | nil => exact absurd h not_closes_nil
  | cons c cs ih =>
    rcases (closes_cons_iff c cs).mp h with ⟨rfl, rfl⟩ | ⟨hne, hcs⟩
    · rfl
    · rw [List.cons_append, outsideFrom_true_cons, ih hcs]
      rintro ⟨hc, hhead⟩
      cases cs with
      | nil => exact not_closes_nil hcs
      | cons d cs => exact hne ⟨hc, hhead⟩

/-- Behind a character of which no opening and no end is made, one is outside of comments or inside one,
whatever follows. -/
theorem exists_outsideFrom_append {c : Char} (hstar : c ≠ '*') (hslash : c ≠ '/') (inside : Bool)
    (u : List Char) : ∃ inside', ∀ v,
      outsideFrom inside (u ++ c :: v) = outsideFrom inside (u ++ [c]) ++ outsideFrom inside' v := by
  -- the next character of a longer text is the same, or it is `c`
  have hnext : ∀ {d} {cs v : List Char}, d ≠ c → (cs ++ c :: v).head? = some d → ∃ ds, cs = d :: ds := by
    intro d cs v hd h
    cases cs with
    | nil => exact absurd (Option.some.inj h).symm hd
    | cons e cs => exact ⟨cs, by rw [Option.some.inj h]⟩
  fun_induction outsideFrom inside u with
  | case1 cs ih => exact ih
  | case2 cs ih => exact ih
  | case3 d cs hopen ih =>
    obtain ⟨inside', h⟩ := ih
    refine ⟨inside', fun v => ?_⟩
    have hstay : ∀ v, ¬(d = '/' ∧ (cs ++ c :: v).head? = some '*') := by
      rintro v ⟨hd, hhead⟩
      obtain ⟨ds, hds⟩ := hnext hstar.symm hhead
      exact hopen ds hd hds
    rw [List.cons_append, List.cons_append, outsideFrom_false_cons (hstay v),
      outsideFrom_false_cons (hstay []), h v]
    rfl
  | case4 d cs hclose ih =>
    obtain ⟨inside', h⟩ := ih
    refine ⟨inside', fun v => ?_⟩
    have hstay : ∀ v, ¬(d = '*' ∧ (cs ++ c :: v).head? = some '/') := by
      rintro v ⟨hd, hhead⟩
      obtain ⟨ds, hds⟩ := hnext hslash.symm hhead
      exact hclose ds hd hds
    rw [List.cons_append, List.cons_append, outsideFrom_true_cons (hstay v),
      outsideFrom_true_cons (hstay []), h v]
  | case5 inside =>
    refine ⟨inside, fun v => ?_⟩
    cases inside with
    | false =>
      rw [List.nil_append, List.nil_append, outsideFrom_false_cons fun h => hslash h.1,
        outsideFrom_false_cons fun h => hslash h.1]
      rfl
    | true =>
      rw [List.nil_append, List.nil_append, outsideFrom_true_cons fun h => hstar h.1,
        outsideFrom_true_cons fun h => hstar h.1]
      rfl

/-- A comment behind such a character adds nothing to the text outside of comments, and what follows it
is outside. If the text in front of it opens a comment, that one ends with it. -/
theorem outside_comment {c : Char} (hstar : c ≠ '*') (hslash : c ≠ '/') (front : List Char)
    {cs : List Char} (hcs : IsComment cs) (hcloses : Closes cs) (back : List Char) :
    outside (front ++ [c] ++ cs ++ back) = outside (front ++ [c]) ++ outside back := by
  obtain ⟨inside, h⟩ := exists_outsideFrom_append hstar hslash false front
  have hrest : outsideFrom inside (cs ++ back) = outsideFrom false back := by
    cases inside with
    | true => exact outsideFrom_closes hcloses back
    | false =>
      obtain ⟨body, rfl, hbody⟩ := hcs
      exact outsideFrom_closes hbody back
  rw [outside, outside, outside, ← hrest, ← h, List.append_assoc, List.append_assoc]
  rfl

end BaselineAudit.Css
