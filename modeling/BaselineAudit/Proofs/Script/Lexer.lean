import BaselineAudit.Proofs.Text.Lines
import BaselineAudit.Script.Lexer

/-!
# Where tokens stand

A token knows the offsets of its two ends. They are the places at which the text that it keeps starts.

* `Lexer.Leaves`: what is left of a text behind a number of bytes.
* `Lexer.Padding`, `Lexer.Padded`: the blanks and comments between two places.
* `Token.At`: a token with the texts from its start and from its end on, as parts of a whole text.
* `Lexer.next_behind`, `Lexer.content_behind`, `Lexer.attributeValue_behind`: tokens are read so, and only
  blanks and comments are skipped. `Lexer.first_at` is the same for the first one.
* `Lexer.templateTail_at`, `Lexer.regex?_at`, `Lexer.angle_at`, `Lexer.single_at`,
  `Lexer.markupName_at`: a token that is read again in another way stays so.
-/

namespace BaselineAudit.Script

namespace Lexer

/-! ## Parts of a text -/

/-- What is left of a text behind `n` bytes. -/
def Leaves (n : Nat) (cs rest : List Char) : Prop := ∃ w, cs = w ++ rest ∧ n = byteCount w

namespace Leaves

theorem refl (cs : List Char) : Leaves 0 cs cs := ⟨[], rfl, rfl⟩

theorem cons (c : Char) (cs : List Char) : Leaves c.utf8Size (c :: cs) cs :=
  ⟨[c], rfl, by simp⟩

theorem append (w rest : List Char) : Leaves (byteCount w) (w ++ rest) rest := ⟨w, rfl, rfl⟩

theorem trans {m n : Nat} {a b c : List Char} (h : Leaves m a b) (h' : Leaves n b c) :
    Leaves (m + n) a c := by
  obtain ⟨u, rfl, rfl⟩ := h
  obtain ⟨v, rfl, rfl⟩ := h'
  exact ⟨u ++ v, by simp, by simp⟩

theorem le {n : Nat} {cs rest : List Char} (h : Leaves n cs rest) : n ≤ byteCount cs := by
  obtain ⟨w, rfl, rfl⟩ := h
  simp

theorem lt {n : Nat} {cs rest : List Char} (h : Leaves n cs rest) (hne : rest ≠ []) :
    n < byteCount cs := by
  obtain ⟨w, rfl, rfl⟩ := h
  have := byteCount_pos hne
  simp
  omega

end Leaves

theorem bytes_eq (cs : List Char) : bytes cs = byteCount cs := by
  have h : ∀ n, cs.foldl (fun n c => n + c.utf8Size) n = n + byteCount cs := by
    induction cs with
    | nil => simp
    | cons c cs ih =>
      intro n
      rw [List.foldl_cons, ih, byteCount_cons]
      omega
  rw [bytes, h, Nat.zero_add]

theorem leaves_bytesUpTo {cs rest : List Char} (h : rest <:+ cs) :
    Leaves (bytesUpTo cs rest) cs rest := by
  obtain ⟨w, rfl⟩ := h
  exact ⟨w, rfl, by simp [bytesUpTo, bytes_eq]⟩

theorem leaves_of_isPrefix {w cs : List Char} (h : w <+: cs) :
    Leaves (byteCount w) cs (cs.drop w.length) :=
  ⟨w, (List.prefix_iff_eq_append.mp h).symm, rfl⟩

theorem leaves_takeWhile (p : Char → Bool) (cs : List Char) :
    Leaves (byteCount (cs.takeWhile p)) cs (cs.drop (cs.takeWhile p).length) :=
  leaves_of_isPrefix (List.takeWhile_prefix p)

/-! ## Blanks and names -/

/-- Blanks and comments, from within a comment on or from outside. They end outside. -/
inductive Padding : Between → List Char → Prop
  | nil : Padding .blank []
  | blank {c : Char} {w : List Char} (hc : endsLine c = true ∨ isSpace c = true) (h : Padding .blank w) :
      Padding .blank (c :: w)
  | openLine {w : List Char} (h : Padding .lineComment w) : Padding .blank ('/' :: '/' :: w)
  | inLine {c : Char} {w : List Char} (hc : endsLine c = false) (h : Padding .lineComment w) :
      Padding .lineComment (c :: w)
  | closeLine {c : Char} {w : List Char} (hc : endsLine c = true) (h : Padding .blank w) :
      Padding .lineComment (c :: w)
  | openBlock {w : List Char} (h : Padding .blockComment w) : Padding .blank ('/' :: '*' :: w)
  | inBlock {c : Char} {w : List Char} (hc : ∀ v, c :: w ≠ '*' :: '/' :: v)
      (h : Padding .blockComment w) : Padding .blockComment (c :: w)
  | closeBlock {w : List Char} (h : Padding .blank w) : Padding .blockComment ('*' :: '/' :: w)

/-- Only blanks and comments stand between two places of a text. -/
def Padded (cs : List Char) (start stop : Nat) : Prop :=
  ∃ w, Text.StandsAt cs start w ∧ start + byteCount w = stop ∧ Padding .blank w

/-- What is skipped in front of a token. A comment without an end reaches up to the end of the text. -/
theorem gap_eq (b : Between) (newline : Bool) (offset : Nat) (cs : List Char) :
    ∃ w, cs = w ++ (gap b newline offset cs).stop.rest ∧
      (gap b newline offset cs).stop.offset = offset + byteCount w ∧
      ((gap b newline offset cs).stop.rest ≠ [] → Padding b w) := by
  have one : ∀ {b b' : Between} {c : Char} {cs rest : List Char} {offset stop : Nat},
      (∃ w, cs = w ++ rest ∧ stop = offset + c.utf8Size + byteCount w ∧ (rest ≠ [] → Padding b w)) →
      (∀ w, cs = w ++ rest → Padding b w → Padding b' (c :: w)) →
      ∃ w, c :: cs = w ++ rest ∧ stop = offset + byteCount w ∧ (rest ≠ [] → Padding b' w) := by
    rintro b b' c cs rest offset stop ⟨w, hw, rfl, hpad⟩ hcons
    exact ⟨c :: w, by rw [List.cons_append, ← hw], by rw [byteCount_cons, Nat.add_assoc],
      fun h => hcons w hw (hpad h)⟩
  have two : ∀ {b b' : Between} {c d : Char} {cs rest : List Char} {offset stop : Nat},
      c.utf8Size = 1 → d.utf8Size = 1 →
      (∃ w, cs = w ++ rest ∧ stop = offset + 2 + byteCount w ∧ (rest ≠ [] → Padding b w)) →
      (∀ w, Padding b w → Padding b' (c :: d :: w)) →
      ∃ w, c :: d :: cs = w ++ rest ∧ stop = offset + byteCount w ∧ (rest ≠ [] → Padding b' w) := by
    rintro b b' c d cs rest offset stop hc hd ⟨w, hw, rfl, hpad⟩ hcons
    refine ⟨c :: d :: w, by rw [List.cons_append, List.cons_append, ← hw], ?_,
      fun h => hcons w (hpad h)⟩
    rw [byteCount_cons, byteCount_cons, hc, hd]
    omega
  fun_induction gap b newline offset cs with
  | case1 | case2 => exact ⟨[], rfl, rfl, fun h => absurd rfl h⟩
  | case3 _ _ _ ih => exact two rfl rfl ih fun _ => .openLine
  | case4 _ _ _ ih => exact two rfl rfl ih fun _ => .openBlock
  | case5 _ _ c cs _ _ hc ih => exact one ih fun _ _ => .blank (.inl hc)
  | case6 _ _ c cs _ _ _ hc ih => exact one ih fun _ _ => .blank (.inr hc)
  | case7 => exact ⟨[], rfl, rfl, fun _ => .nil⟩
  | case8 _ _ c cs hc ih => exact one ih fun _ _ => .closeLine hc
  | case9 _ _ c cs hc ih => exact one ih fun _ _ => .inLine (by simpa using hc)
  | case10 _ _ _ ih => exact two rfl rfl ih fun _ => .closeBlock
  | case11 _ _ c cs hc ih =>
    refine one ih fun w hw => .inBlock fun v hv => ?_
    obtain ⟨rfl, rfl⟩ := List.cons.inj hv
    exact hc _ rfl hw

theorem unicodeNumber?_suffix {cs rest : List Char} {n : Nat}
    (h : unicodeNumber? cs = some (n, rest)) : rest <:+ cs := by
  unfold unicodeNumber? at h
  split at h
  next cs =>
    obtain ⟨m, -, h⟩ := Option.bind_eq_some_iff.mp h
    split at h
    · exact absurd h (by simp)
    · split at h
      next after hdrop =>
        obtain ⟨rfl, rfl⟩ : m = n ∧ after = rest := by simpa using h
        have hsuffix : '\x7d' :: after <:+ cs := hdrop ▸ List.drop_suffix _ cs
        exact ((List.suffix_cons _ after).trans hsuffix).trans (List.suffix_cons _ cs)
      next => exact absurd h (by simp)
  next a b c d cs _ =>
    obtain ⟨m, -, h⟩ := Option.bind_eq_some_iff.mp h
    obtain ⟨rfl, rfl⟩ : m = n ∧ cs = rest := by simpa using h
    exact List.suffix_append [a, b, c, d] cs
  next => exact absurd h (by simp)

theorem escape_suffix (inTemplate : Bool) (cs : List Char) : (escape inTemplate cs).rest <:+ cs := by
  unfold escape
  split
  next => exact List.suffix_rfl
  next cs => exact List.suffix_append ['\r', '\n'] cs
  next c cs _ =>
    have hcs : cs <:+ c :: cs := List.suffix_cons c cs
    split
    · exact hcs
    · split
      case h_7 =>
        split
        next a b rest _ =>
          split
          · exact (List.suffix_append [a, b] rest).trans hcs
          · exact hcs
        next => exact hcs
      case h_8 =>
        split
        next n rest hn => exact (unicodeNumber?_suffix hn).trans hcs
        next => exact hcs
      case h_9 =>
        split
        · split
          · exact hcs
          · split
            · exact hcs
            · split
              · exact List.drop_suffix _ _
              · exact hcs
        · exact hcs
      all_goals exact hcs

theorem escapedName_suffix (fuel : Nat) (first : Bool) (cs : List Char) :
    (escapedName fuel first cs).rest <:+ cs := by
  fun_induction escapedName fuel first cs with
  | case1 => exact List.suffix_rfl
  | case2 fuel first after h => exact List.suffix_append ['\\', 'u'] after
  | case3 fuel first after n rest h c fits more ih =>
    exact (ih.trans (unicodeNumber?_suffix h)).trans (List.suffix_append ['\\', 'u'] after)
  | case4 fuel first after h => exact List.suffix_cons _ after
  | case5 fuel first c after _ _ _ more ih => exact ih.trans (List.suffix_cons c after)
  | case6 => exact List.suffix_rfl
  | case7 => exact List.suffix_rfl

theorem escapedName_escaped (fuel : Nat) (first : Bool) (cs : List Char) :
    (escapedName fuel first cs).escaped = true := by
  fun_induction escapedName fuel first cs with
  | case1 | case2 | case4 | case6 | case7 => rfl
  | case3 fuel first after n rest h c fits more ih => exact ih
  | case5 fuel first c after _ _ _ more ih => exact ih

theorem name_suffix (cs : List Char) : (name cs).rest <:+ cs := by
  unfold name
  simp only
  split
  · exact (escapedName_suffix _ _ _).trans (List.drop_suffix _ cs)
  · exact List.drop_suffix _ cs

/-- A name without escapes is as long as its characters. -/
theorem name_leaves {cs : List Char} (h : (name cs).escaped = false) :
    Leaves (byteCount (name cs).chars) cs (name cs).rest := by
  unfold name at h ⊢
  simp only at h ⊢
  split at h
  next hesc =>
    rw [show (escapedName _ _ _).escaped = true from escapedName_escaped _ _ _] at h
    exact absurd h (by simp)
  next hesc =>
    rw [if_neg hesc]
    exact leaves_takeWhile continuesName cs

theorem continuesName_of_startsName {c : Char} (h : startsName c = true) : continuesName c = true := by
  unfold startsName at h
  unfold continuesName
  simp only [Bool.or_eq_true, beq_iff_eq] at h ⊢
  rcases h with (rfl | rfl) | h
  · exact .inl rfl
  · exact .inr rfl
  · refine .inr ?_
    unfold Text.isIdContinue
    simp only
    split
    next hn =>
      unfold Text.isIdStart at h
      simp only [hn, if_true] at h
      simp [Char.isAlphanum, h]
    next => simp [h]

/-- A name starts with its first character, or with a backslash. -/
theorem name_head {c : Char} {after : List Char} (h : (startsName c || c == '\\') = true) :
    c = '\\' ∨ (name (c :: after)).chars.head? = some c := by
  rw [Bool.or_eq_true, beq_iff_eq] at h
  rcases h with h | h
  · refine .inr ?_
    have hplain : ((c :: after).takeWhile continuesName).head? = some c := by
      simp [continuesName_of_startsName h]
    unfold name
    simp only
    split
    · simp [continuesName_of_startsName h]
    · exact hplain
  · exact .inl h

/-! ## Numbers -/

theorem digits_suffix (p : Char → Bool) (cs : List Char) : (digits p cs).2.1 <:+ cs := by
  induction cs with
  | nil => exact List.suffix_rfl
  | cons c cs ih =>
    have hcs := ih.trans (List.suffix_cons c cs)
    unfold digits
    split
    next cs heq =>
      obtain ⟨rfl, rfl⟩ := List.cons.inj heq
      split
      next hd => rwa [hd] at hcs
      next hd => rwa [hd] at hcs
    next c cs _ heq =>
      obtain ⟨rfl, rfl⟩ := List.cons.inj heq
      split
      · exact hcs
      · exact List.suffix_rfl
    next heq => exact absurd heq (by simp)

theorem checkedDigits_suffix (p : Char → Bool) (cs : List Char) :
    (checkedDigits p cs).2.1 <:+ cs := digits_suffix p cs

theorem exponent_suffix (mark : Char) (before cs : List Char) :
    (exponent mark before cs).rest <:+ cs := by
  unfold exponent
  split
  next h =>
    refine (checkedDigits_suffix _ _).trans ?_
    split at h
    all_goals
      obtain ⟨-, rfl⟩ := Prod.mk.inj h
      simp

theorem optionalExponent_suffix (before cs : List Char) (flawed : Bool) :
    (optionalExponent before cs flawed).rest <:+ cs := by
  unfold optionalExponent
  split
  · exact (exponent_suffix 'e' before _).trans (List.suffix_cons _ _)
  · exact (exponent_suffix 'E' before _).trans (List.suffix_cons _ _)
  · exact List.suffix_rfl

theorem fraction_suffix (before cs : List Char) : (fraction before cs).rest <:+ cs := by
  unfold fraction
  split
  · exact (optionalExponent_suffix _ _ _).trans (checkedDigits_suffix _ _)
  · split
    · exact List.suffix_rfl
    · exact optionalExponent_suffix _ _ _

theorem based_suffix (mark : Char) (p : Char → Bool) (cs : List Char) :
    (based mark p cs).rest <:+ cs := by
  have hds := checkedDigits_suffix p cs
  unfold based
  split
  next ds rest flawed h =>
    rw [h] at hds
    split
    · exact (List.suffix_cons _ _).trans hds
    · exact hds

theorem zeroLed_suffix (cs : List Char) : (zeroLed cs).rest <:+ cs := by
  have hds : cs.drop (cs.takeWhile Char.isDigit).length <:+ cs := List.drop_suffix _ cs
  unfold zeroLed
  simp only
  split
  · split
    next h => rw [h] at hds; exact ((fraction_suffix _ _).trans (List.suffix_cons _ _)).trans hds
    next h => rw [h] at hds; exact ((exponent_suffix _ _ _).trans (List.suffix_cons _ _)).trans hds
    next => exact hds
  · exact hds

theorem decimal_suffix (cs : List Char) : (decimal cs).rest <:+ cs := by
  have hds := checkedDigits_suffix Char.isDigit cs
  unfold decimal
  split
  next ds rest flawed h =>
    rw [h] at hds
    split
    · exact ((fraction_suffix _ _).trans (List.suffix_cons _ _)).trans hds
    · exact (List.suffix_cons _ _).trans hds
    · exact (optionalExponent_suffix _ _ _).trans hds

theorem numeral_suffix (cs : List Char) : (numeral cs).rest <:+ cs := by
  unfold numeral
  simp only
  split
  next rest => exact (fraction_suffix _ rest).trans (List.suffix_cons _ rest)
  next c rest =>
    have hrest : rest <:+ '0' :: c :: rest := List.suffix_append ['0', c] rest
    repeat' split
    · exact (based_suffix _ _ rest).trans hrest
    · exact (based_suffix _ _ rest).trans hrest
    · exact (based_suffix _ _ rest).trans hrest
    · exact (exponent_suffix _ _ rest).trans hrest
    · exact (fraction_suffix _ rest).trans hrest
    · exact hrest
    · exact zeroLed_suffix _
    · exact List.suffix_cons _ _
  next => exact List.suffix_cons _ _
  next => exact decimal_suffix cs

/-! ## Strings, templates, punctuators -/

theorem quoted_leaves (quote : Char) (fuel : Nat) (cs : List Char) :
    Leaves (quoted quote fuel cs).size cs (quoted quote fuel cs).rest := by
  fun_induction quoted quote fuel cs with
  | case1 | case2 | case4 => exact .refl _
  | case3 fuel c after _ => exact .cons c after
  | case5 fuel c after _ _ hc e more ih =>
    have hc : c.utf8Size = 1 := by rw [beq_iff_eq.mp hc]; rfl
    have h := ((Leaves.cons c after).trans (leaves_bytesUpTo (escape_suffix false after))).trans ih
    rw [hc] at h
    rwa [show more.size + 1 + bytesUpTo after e.rest = 1 + bytesUpTo after e.rest + more.size by omega]
  | case6 fuel c after _ _ _ more ih =>
    have h := (Leaves.cons c after).trans ih
    rwa [Nat.add_comm] at h

theorem templatePiece_leaves (fuel : Nat) (cs : List Char) :
    Leaves (templatePiece fuel cs).size cs (templatePiece fuel cs).rest := by
  fun_induction templatePiece fuel cs with
  | case1 | case2 => exact .refl _
  | case3 fuel c after hc =>
    have hc : c.utf8Size = 1 := by rw [← Char.ofNat_toNat c, beq_iff_eq.mp hc]; rfl
    exact hc ▸ .cons c after
  | case4 fuel c after _ hc =>
    simp only [Bool.and_eq_true, beq_iff_eq] at hc
    obtain ⟨rfl, hhead⟩ := hc
    obtain ⟨tail, rfl⟩ := List.head?_eq_some_iff.mp hhead
    exact (Leaves.cons '$' ('\x7b' :: tail)).trans (.cons '\x7b' tail)
  | case5 fuel c after _ _ hc e more ih =>
    have hc : c.utf8Size = 1 := by rw [beq_iff_eq.mp hc]; rfl
    have h := ((Leaves.cons c after).trans (leaves_bytesUpTo (escape_suffix true after))).trans ih
    rw [hc] at h
    rwa [show more.size + 1 + bytesUpTo after e.rest = 1 + bytesUpTo after e.rest + more.size by omega]
  | case6 fuel c after _ _ _ hc rest more ih =>
    have hc : c.utf8Size = 1 := by rw [beq_iff_eq.mp hc]; rfl
    have hrest : rest <:+ after := by
      unfold rest
      split
      · exact List.drop_suffix 1 after
      · exact List.suffix_rfl
    have h := ((Leaves.cons c after).trans (leaves_bytesUpTo hrest)).trans ih
    rw [hc] at h
    rwa [show more.size + 1 + bytesUpTo after rest = 1 + bytesUpTo after rest + more.size by omega]
  | case7 fuel c after _ _ _ _ more ih =>
    have h := (Leaves.cons c after).trans ih
    rwa [Nat.add_comm] at h

/-- What a piece of a template starts with. -/
def pieceStart (starts : Bool) : Char := if starts then '\x60' else '\x7d'

/-- What a piece of a template ends with. -/
def pieceEnd (ends : Bool) : List Char := if ends then ['\x60'] else ['$', '\x7b']

theorem pieceStart_leaves (starts : Bool) (fuel : Nat) (after : List Char) :
    Leaves ((templatePiece fuel after).size + 1) (pieceStart starts :: after)
      (templatePiece fuel after).rest := by
  have h := (Leaves.cons (pieceStart starts) after).trans (templatePiece_leaves fuel after)
  rwa [show (pieceStart starts).utf8Size = 1 by cases starts <;> rfl, Nat.add_comm] at h

/-- A piece with an end is what stands in front of it. -/
theorem templatePiece_eq {fuel : Nat} {cs : List Char} (h : (templatePiece fuel cs).closed = true) :
    ∃ raw, cs = raw ++ pieceEnd (!(templatePiece fuel cs).opensExpression) ++
      (templatePiece fuel cs).rest := by
  have behind : ∀ {u cs mark rest : List Char}, (∃ raw, cs = raw ++ mark ++ rest) →
      ∃ raw, u ++ cs = raw ++ mark ++ rest := by
    rintro u cs mark rest ⟨raw, rfl⟩
    exact ⟨u ++ raw, by simp⟩
  fun_induction templatePiece fuel cs with
  | case1 | case2 => exact absurd h (by simp)
  | case3 fuel c after hc =>
    obtain rfl : c = '\x60' := by rw [← Char.ofNat_toNat c, beq_iff_eq.mp hc]
    exact ⟨[], rfl⟩
  | case4 fuel c after _ hc =>
    simp only [Bool.and_eq_true, beq_iff_eq] at hc
    obtain ⟨rfl, hhead⟩ := hc
    obtain ⟨tail, rfl⟩ := List.head?_eq_some_iff.mp hhead
    exact ⟨[], rfl⟩
  | case5 fuel c after _ _ hc e more ih =>
    obtain ⟨u, hu⟩ := escape_suffix true after
    have hmore := behind (u := c :: u) (ih h)
    rwa [List.cons_append, hu] at hmore
  | case6 fuel c after _ _ _ hc rest more ih =>
    have hrest : rest <:+ after := by
      unfold rest
      split
      · exact List.drop_suffix 1 after
      · exact List.suffix_rfl
    obtain ⟨u, hu⟩ := hrest
    have hmore := behind (u := c :: u) (ih h)
    rwa [List.cons_append, hu] at hmore
  | case7 fuel c after _ _ _ _ more ih => exact behind (u := [c]) (ih h)

/-- The raw text of a piece stands between its marks. -/
theorem rawText_eq {fuel : Nat} {cs : List Char} (h : (templatePiece fuel cs).closed = true) :
    cs = (rawText (templatePiece fuel cs) cs).toList ++
      pieceEnd (!(templatePiece fuel cs).opensExpression) ++ (templatePiece fuel cs).rest := by
  obtain ⟨raw, hraw⟩ := templatePiece_eq h
  generalize templatePiece fuel cs = q at hraw ⊢
  have hlength : cs.length - q.rest.length - (if q.opensExpression then 2 else 1) = raw.length := by
    rw [hraw]
    cases q.opensExpression <;> simp [pieceEnd] <;> omega
  have htake : cs.take raw.length = raw := by rw [hraw, List.append_assoc, List.take_left]
  rw [rawText, hlength, String.toList_ofList, htake]
  exact hraw

/-- Punctuators are made of characters of one byte. -/
theorem punctuators_narrow : ∀ p ∈ "?" :: "?." :: punctuators,
    p.toList ≠ [] ∧ ∀ c ∈ p.toList, c.utf8Size = 1 := by
  have hall : (("?" :: "?." :: punctuators).all fun p =>
      !p.toList.isEmpty && p.toList.all (·.utf8Size == 1)) = true := by decide
  intro p hp
  simpa using List.all_eq_true.mp hall p hp

theorem byteCount_of_narrow {cs : List Char} (h : ∀ c ∈ cs, c.utf8Size = 1) :
    byteCount cs = cs.length := by
  induction cs with
  | nil => rfl
  | cons c cs ih =>
    rw [byteCount_cons, ih fun d hd => h d (List.mem_cons_of_mem c hd), h c List.mem_cons_self,
      List.length_cons, Nat.add_comm]

theorem punctuator?_spec {cs : List Char} {p : String} (h : punctuator? cs = some p) :
    p ∈ "?" :: "?." :: punctuators ∧ p.toList <+: cs := by
  unfold punctuator? at h
  split at h
  next c rest =>
    split at h
    · obtain rfl := Option.some.inj h
      exact ⟨by simp, _, rfl⟩
    · obtain rfl := Option.some.inj h
      exact ⟨by simp, _, rfl⟩
  next =>
    obtain rfl := Option.some.inj h
    exact ⟨by simp, _, rfl⟩
  next =>
    have hmem := List.mem_of_find?_eq_some h
    have hstarts := List.find?_some h
    exact ⟨List.mem_cons_of_mem _ (List.mem_cons_of_mem _ hmem),
      List.isPrefixOf_iff_prefix.mp hstarts⟩

theorem regexBody_eq {inClass escaped : Bool} {cs body rest : List Char}
    (h : regexBody inClass escaped cs = some (body, rest)) : cs = body ++ rest := by
  have add : ∀ {c : Char} {cs : List Char} {r : Option (List Char × List Char)} {body rest : List Char},
      regexBody.add c r = some (body, rest) → (∀ b s, r = some (b, s) → cs = b ++ s) →
      c :: cs = body ++ rest := by
    intro c cs r body rest h hr
    obtain ⟨⟨b, s⟩, hb, heq⟩ := Option.map_eq_some_iff.mp h
    obtain ⟨rfl, rfl⟩ := Prod.mk.inj heq
    rw [hr b s hb]
    rfl
  fun_induction regexBody inClass escaped cs generalizing body rest with
  | case1 | case2 => exact absurd h (by simp)
  | case7 =>
    obtain ⟨rfl, rfl⟩ := Prod.mk.inj (Option.some.inj h)
    rfl
  | _ =>
    rename_i ih
    exact add h fun b s => ih

end Lexer

/-! ## Tokens -/

open Lexer

/-- The text from a token on starts with a character of one byte, or with that of the token's text. -/
def Edge (text : String) (here : List Char) : Prop :=
  ∃ c tail, here = c :: tail ∧ (c.utf8Size = 1 ∨ text.toList.head? = some c)

/-- A token stands in a text: `here` is what is left at its start, and `rest` what is left at its
end. -/
structure Token.At (cs : List Char) (t : Token) (here rest : List Char) : Prop where
  start : Leaves t.start cs here
  stop : Leaves t.stop cs rest
  le : t.start ≤ t.stop
  done : here = [] → t.kind = .done
  edge : t.kind = .word ∨ t.kind = .punct → Edge t.text here
  text : t.kind = .text → here = t.text.toList ++ rest
  piece : ∀ starts ends cooked, t.kind = .template starts ends cooked →
    here = pieceStart starts :: t.text.toList ++ pieceEnd ends ++ rest

namespace Token.At

variable {cs here rest : List Char} {t : Token}

theorem start_le (h : t.At cs here rest) : t.start ≤ byteCount cs := h.start.le

theorem start_lt (h : t.At cs here rest) (hk : t.kind ≠ .done) : t.start < byteCount cs :=
  h.start.lt fun hnil => hk (h.done hnil)

theorem here_ne_nil (h : t.At cs here rest) (hlt : t.start < byteCount cs) : here ≠ [] := by
  rintro rfl
  obtain ⟨w, hw, hsize⟩ := h.start
  rw [List.append_nil] at hw
  rw [hsize, ← hw] at hlt
  exact Nat.lt_irrefl _ hlt

/-- A piece of a template stands in the text between its marks. -/
theorem piece_stands (h : t.At cs here rest) {starts ends : Bool} {cooked : Option String}
    (hkind : t.kind = .template starts ends cooked) :
    Text.StandsAt cs t.start (pieceStart starts :: t.text.toList ++ pieceEnd ends) ∧
      t.stop = t.start + 1 + byteCount t.text.toList + byteCount (pieceEnd ends) := by
  obtain ⟨w, hw, hstart⟩ := h.start
  obtain ⟨w', hw', hstop⟩ := h.stop
  have hpiece := h.piece _ _ _ hkind
  rw [hpiece] at hw
  refine ⟨⟨w, rest, by rw [hw]; simp, hstart.symm⟩, ?_⟩
  rw [hw, ← List.append_assoc] at hw'
  have hsize : (pieceStart starts).utf8Size = 1 := by cases starts <;> rfl
  rw [hstop, hstart, ← List.append_cancel_right hw']
  simp only [byteCount_append, byteCount_cons, hsize]
  omega

end Token.At

namespace Lexer

theorem edge_name {c : Char} {after : List Char} (h : (startsName c || c == '\\') = true) :
    Edge (String.ofList (name (c :: after)).chars) (c :: after) := by
  refine ⟨c, after, rfl, ?_⟩
  rw [String.toList_ofList]
  exact (name_head h).imp_left fun hc => by rw [hc]; rfl

theorem edge_of_isPrefix {p : String} {here : List Char} (hne : p.toList ≠ [])
    (h : p.toList <+: here) : Edge p here := by
  obtain ⟨tail, rfl⟩ := h
  obtain ⟨c, cs, hc⟩ := List.exists_cons_of_ne_nil hne
  exact ⟨c, cs ++ tail, by rw [hc]; rfl, .inr (by rw [hc]; rfl)⟩

/-- How far a name reaches, with what stands in front of it. -/
theorem word_leaves (front cs : List Char) :
    Leaves (if (name cs).escaped then bytesUpTo (front ++ cs) (name cs).rest
      else byteCount front + bytes (name cs).chars) (front ++ cs) (name cs).rest := by
  split
  · exact leaves_bytesUpTo ((name_suffix cs).trans (List.suffix_append front cs))
  next h =>
    rw [bytes_eq]
    exact (Leaves.append front cs).trans (name_leaves (by simpa using h))

section

variable {cs here rest : List Char} {t : Token} {n : Nat}

theorem at_of_leaves (hstart : Leaves t.start cs here) (hrest : Leaves n here rest)
    (hstop : t.stop = t.start + n) (hne : here ≠ [])
    (hedge : t.kind = .word ∨ t.kind = .punct → Edge t.text here)
    (htext : t.kind = .text → here = t.text.toList ++ rest)
    (hpiece : ∀ starts ends cooked, t.kind = .template starts ends cooked →
      here = pieceStart starts :: t.text.toList ++ pieceEnd ends ++ rest) : t.At cs here rest where
  start := hstart
  stop := hstop ▸ hstart.trans hrest
  le := hstop ▸ Nat.le_add_right _ _
  done := fun h => absurd h hne
  edge := hedge
  text := htext
  piece := hpiece

/-- A word or punctuator has only to reach from place to place and to show its first character. -/
theorem at_of_edge (hstart : Leaves t.start cs here) (hrest : Leaves n here rest)
    (hstop : t.stop = t.start + n) (hkind : t.kind = .word ∨ t.kind = .punct)
    (hedge : Edge t.text here) : t.At cs here rest := by
  refine at_of_leaves hstart hrest hstop ?_ (fun _ => hedge) ?_ ?_
  · obtain ⟨c, tail, rfl, -⟩ := hedge
    exact List.cons_ne_nil c tail
  · rcases hkind with hkind | hkind <;> simp [hkind]
  · rcases hkind with hkind | hkind <;> simp [hkind]

/-- A token that is no word, punctuator, text or piece has only to reach from place to place. -/
theorem at_of_literal (hstart : Leaves t.start cs here) (hrest : Leaves n here rest)
    (hstop : t.stop = t.start + n) (hne : here ≠ [])
    (hkind : t.kind ≠ .word ∧ t.kind ≠ .punct ∧ t.kind ≠ .text ∧
      ∀ starts ends cooked, t.kind ≠ .template starts ends cooked) : t.At cs here rest :=
  at_of_leaves hstart hrest hstop hne (fun h => (h.elim hkind.1 hkind.2.1).elim)
    (fun h => absurd h hkind.2.2.1) fun _ _ _ h => absurd h (hkind.2.2.2 _ _ _)

/-- A piece of a template behind its first mark. -/
theorem at_of_piece (starts : Bool) {fuel : Nat} {after : List Char} {cooked : Option String}
    (hstart : Leaves t.start cs (pieceStart starts :: after))
    (hclosed : (templatePiece fuel after).closed = true)
    (hkind : t.kind = .template starts (!(templatePiece fuel after).opensExpression) cooked)
    (htext : t.text = rawText (templatePiece fuel after) after)
    (hstop : t.stop = t.start + ((templatePiece fuel after).size + 1)) :
    t.At cs (pieceStart starts :: after) (templatePiece fuel after).rest := by
  refine at_of_leaves hstart (pieceStart_leaves starts fuel after) hstop (List.cons_ne_nil _ _)
    (by simp [hkind]) (by simp [hkind]) ?_
  intro starts' ends cooked' hkind'
  obtain ⟨rfl, rfl, -⟩ := TokenKind.template.inj (hkind.symm.trans hkind')
  rw [htext, List.cons_append, List.cons_append, ← rawText_eq hclosed]

theorem at_end {offset : Nat} {newline : Bool} (h : Leaves offset cs []) :
    Token.At cs ⟨.done, "", offset, offset, newline, false⟩ [] [] where
  start := h
  stop := h
  le := Nat.le_refl _
  done := fun _ => rfl
  edge := fun h => by simp at h
  text := fun h => by simp at h
  piece := fun _ _ _ h => by simp at h

end

/-- A token is read at the place where it starts. -/
theorem tokenAt_at {cs here : List Char} {start : Nat} (h : Leaves start cs here) (newline : Bool) :
    (tokenAt start newline here).token.At cs (tokenAt start newline here).here
      (tokenAt start newline here).rest := by
  unfold tokenAt
  simp only
  split
  next => exact at_end h
  next c after =>
    have hne : c :: after ≠ [] := List.cons_ne_nil c after
    split
    next hname =>
      exact at_of_edge h (word_leaves [] (c :: after)) rfl (.inl rfl) (edge_name hname)
    next =>
      split
      next hc =>
        obtain rfl : c = '#' := by simpa using hc
        split
        · exact at_of_literal h (word_leaves ['#'] after) rfl hne (by simp)
        · exact at_of_literal h (.cons '#' after) rfl hne (by simp)
      next =>
        split
        next =>
          refine at_of_literal h (leaves_bytesUpTo (numeral_suffix (c :: after))) rfl hne ?_
          simp only
          repeat' split
          all_goals simp
        next =>
          split
          next hc =>
            have hc : c.utf8Size = 1 := by
              simp only [Bool.or_eq_true, beq_iff_eq] at hc
              rcases hc with rfl | rfl <;> rfl
            have hq := (Leaves.cons c after).trans (quoted_leaves c (c :: after).length after)
            rw [hc, Nat.add_comm] at hq
            refine at_of_literal h hq rfl hne ?_
            simp only
            split <;> simp
          next =>
            split
            next hc =>
              obtain rfl : c = pieceStart true := by
                rw [← Char.ofNat_toNat c, beq_iff_eq.mp hc]
                rfl
              split
              next hclosed => exact at_of_piece true h hclosed rfl rfl rfl
              next => exact at_of_literal h (pieceStart_leaves true _ after) rfl hne (by simp)
            next =>
              split
              next p hp =>
                obtain ⟨hmem, hstarts⟩ := punctuator?_spec hp
                obtain ⟨hpne, hnarrow⟩ := punctuators_narrow p hmem
                have hleaves := leaves_of_isPrefix hstarts
                rw [byteCount_of_narrow hnarrow, String.length_toList] at hleaves
                exact at_of_edge h hleaves rfl (.inr rfl) (edge_of_isPrefix hpne hstarts)
              next => exact at_of_literal h (.cons c after) rfl hne (by simp)

theorem tokenAt_start (start : Nat) (newline : Bool) (cs : List Char) :
    (tokenAt start newline cs).token.start = start ∧ (tokenAt start newline cs).here = cs := by
  unfold tokenAt
  simp only
  repeat' split
  all_goals exact ⟨rfl, rfl⟩

end Lexer

/-- A token is read behind a place, and only blanks and comments stand in front of it. -/
structure Lexed.Behind (cs : List Char) (p : Cursor) (l : Lexed) : Prop where
  stands : l.token.At cs l.here l.rest
  le : p.offset ≤ l.token.start
  padded : l.here ≠ [] → Padded cs p.offset l.token.start

namespace Lexer

/-- A token that starts at once. -/
theorem behind_of_start {cs : List Char} {p : Cursor} {l : Lexed} (h : l.token.At cs l.here l.rest)
    (hp : Leaves p.offset cs p.rest) (hstart : l.token.start = p.offset) : l.Behind cs p where
  stands := h
  le := Nat.le_of_eq hstart.symm
  padded := fun _ => by
    obtain ⟨w, rfl, hw⟩ := hp
    exact ⟨[], ⟨w, p.rest, by simp, hw.symm⟩, hstart.symm, .nil⟩

/-- The next token is read behind a place. -/
theorem next_behind {cs : List Char} {p : Cursor} (h : Leaves p.offset cs p.rest) :
    (next p).Behind cs p := by
  obtain ⟨w, hw, hoffset, hpad⟩ := gap_eq .blank false p.offset p.rest
  obtain ⟨hstart, hhere⟩ := tokenAt_start (gap .blank false p.offset p.rest).stop.offset
    (gap .blank false p.offset p.rest).newline (gap .blank false p.offset p.rest).stop.rest
  constructor
  case stands => exact tokenAt_at (hoffset ▸ h.trans ⟨w, hw, rfl⟩) _
  case le =>
    show p.offset ≤ (tokenAt _ _ _).token.start
    rw [hstart, hoffset]
    exact Nat.le_add_right _ _
  case padded =>
    show (tokenAt _ _ _).here ≠ [] → Padded cs p.offset (tokenAt _ _ _).token.start
    rw [hstart, hhere]
    intro hne
    obtain ⟨front, hcs, hfront⟩ := h
    exact ⟨w, ⟨front, _, by rw [List.append_assoc, ← hw]; exact hcs, hfront.symm⟩, hoffset.symm,
      hpad hne⟩

/-- The first token of a text. -/
theorem first_at (cs : List Char) : (first cs).token.At cs (first cs).here (first cs).rest := by
  unfold first
  split
  next rest =>
    obtain ⟨w, hw, hoffset, -⟩ := gap_eq .lineComment false 2 rest
    have hmark : Leaves 2 ('#' :: '!' :: rest) rest := (Leaves.cons '#' _).trans (.cons '!' rest)
    exact tokenAt_at (hoffset ▸ hmark.trans ⟨w, hw, rfl⟩) true
  next =>
    have h := (next_behind (p := ⟨0, cs⟩) (Leaves.refl cs)).stands
    exact ⟨h.start, h.stop, h.le, h.done, h.edge, h.text, h.piece⟩

/-- A token in the content of an element. -/
theorem content_behind {cs : List Char} {p : Cursor} (h : Leaves p.offset cs p.rest) :
    (content p).Behind cs p := by
  unfold content
  split
  next hp => exact behind_of_start (at_end (hp ▸ h)) h rfl
  next rest hp =>
    rw [hp]
    exact behind_of_start (at_of_edge (hp ▸ h) (.cons '<' rest) rfl (.inr rfl)
      ⟨'<', rest, rfl, .inl rfl⟩) h rfl
  next rest hp =>
    rw [hp]
    exact behind_of_start (at_of_edge (hp ▸ h) (.cons '\x7b' rest) rfl (.inr rfl)
      ⟨'\x7b', rest, rfl, .inl rfl⟩) h rfl
  next hne _ _ =>
    refine behind_of_start (at_of_leaves h (leaves_takeWhile _ p.rest) (by rw [← bytes_eq]) hne
      (fun h => by simp at h) (fun _ => ?_) fun _ _ _ h => by simp at h) h rfl
    simp only [String.toList_ofList]
    exact (List.prefix_iff_eq_append.mp (List.takeWhile_prefix _)).symm

/-- A token behind the `=` of an attribute, unless it is a string without an end. -/
theorem attributeValue_behind {cs : List Char} {p : Cursor} (h : Leaves p.offset cs p.rest)
    (hk : (attributeValue p).token.kind ≠ .unknown) : (attributeValue p).Behind cs p := by
  unfold attributeValue at hk ⊢
  split at hk
  next c rest hp =>
    rw [hp]
    split at hk
    next hc =>
      rw [if_pos hc]
      have hc : c.utf8Size = 1 := by
        simp only [Bool.or_eq_true, beq_iff_eq] at hc
        rcases hc with rfl | rfl <;> rfl
      simp only at hk ⊢
      split at hk
      next hclosed =>
        rw [if_pos hclosed]
        obtain ⟨tail, htail⟩ := List.head?_eq_some_iff.mp (beq_iff_eq.mp hclosed)
        have hinner := leaves_takeWhile (· != c) rest
        rw [htail] at hinner
        have hreads := ((Leaves.cons c rest).trans hinner).trans (.cons c tail)
        rw [← List.drop_drop, htail, List.drop_succ_cons, List.drop_zero, bytes_eq]
        exact behind_of_start (at_of_literal (hp ▸ h) hreads (by simp only [hc]; omega)
          (List.cons_ne_nil c rest) (by simp)) h rfl
      next => exact absurd rfl hk
    next hc =>
      rw [if_neg hc]
      exact next_behind h
  next => exact next_behind h

/-! ## Tokens that are read again -/

section

variable {cs here rest : List Char} {t : Token}

/-- A token with the text of a punctuator starts with a character of one byte. -/
theorem head_of_is (h : t.At cs here rest) {text : String} (his : t.is text = true)
    (hnarrow : ∀ c, text.toList.head? = some c → c.utf8Size = 1) :
    ∃ c tail, here = c :: tail ∧ c.utf8Size = 1 := by
  unfold Token.is at his
  simp only [Bool.and_eq_true, Bool.or_eq_true, beq_iff_eq] at his
  obtain ⟨c, tail, rfl, hc⟩ := h.edge his.1
  exact ⟨c, tail, rfl, hc.elim id fun hhead => hnarrow c (his.2 ▸ hhead)⟩

/-- The rest of a template from its brace on. -/
theorem templateTail_at (h : t.At cs here rest) (hne : here ≠ []) :
    (templateTail t here).token.At cs (templateTail t here).here (templateTail t here).rest := by
  unfold templateTail
  split
  next after =>
    simp only
    split
    next hclosed => exact at_of_piece false h.start hclosed rfl rfl (Nat.add_assoc ..)
    next =>
      exact at_of_literal h.start (pieceStart_leaves false _ after) (Nat.add_assoc ..) hne (by simp)
  next => exact at_of_literal h.start (.refl here) rfl hne (by simp)

theorem templateTail_start (t : Token) (here : List Char) :
    (templateTail t here).token.start = t.start := by
  unfold templateTail
  simp only
  repeat' split
  all_goals rfl

/-- A regular expression from its slash on. -/
theorem regex?_at (h : t.At cs here rest) (hhead : ∃ c tail, here = c :: tail ∧ c.utf8Size = 1)
    (hkind : t.kind = .punct) {l : Lexed} (hl : regex? t here = some l) :
    l.token.At cs l.here l.rest ∧ l.token.start = t.start := by
  obtain ⟨c, tail, rfl, hc⟩ := hhead
  unfold regex? at hl
  split at hl
  · exact absurd hl (by simp)
  next body after hbody =>
    rw [← Option.some.inj hl]
    refine ⟨?_, rfl⟩
    rw [List.drop_succ_cons, List.drop_zero] at hbody
    have hflags := leaves_takeWhile (fun c => c.isAlphanum || c == '$' || c == '_') after
    have hreads := ((Leaves.cons c tail).trans
      (regexBody_eq hbody ▸ Leaves.append body after)).trans hflags
    refine at_of_edge h.start hreads ?_ (.inr hkind) ⟨c, tail, rfl, .inl hc⟩
    simp only [bytes_eq, hc, List.cons_append, byteCount_cons, byteCount_append]
    rw [show '/'.utf8Size = 1 from rfl]
    omega

/-- The longest operator that starts with `>`. -/
theorem angle_at (h : t.At cs here rest) (hhead : ∃ c tail, here = c :: tail ∧ c.utf8Size = 1)
    (hkind : t.kind = .word ∨ t.kind = .punct) :
    (angle t here).token.At cs (angle t here).here (angle t here).rest := by
  obtain ⟨c, tail, rfl, hc⟩ := hhead
  have hreads : ∀ text : String, (text.toList <+: c :: tail ∧ ∀ c ∈ text.toList, c.utf8Size = 1) ∨
      text.length = 1 → Leaves text.length (c :: tail) ((c :: tail).drop text.length) := by
    rintro text (⟨hstarts, hnarrow⟩ | hone)
    · have hleaves := leaves_of_isPrefix hstarts
      rwa [byteCount_of_narrow hnarrow, String.length_toList] at hleaves
    · have hfirst := Leaves.cons c tail
      rw [hc] at hfirst
      rwa [hone]
  refine at_of_edge h.start (hreads _ ?_) rfl hkind ⟨c, tail, rfl, .inl hc⟩
  have hoperators : ∀ p ∈ [">>>=", ">>=", ">>>", ">>", ">=", ">"],
      ∀ c ∈ p.toList, c.utf8Size = 1 := by
    simp [show '>'.utf8Size = 1 from rfl, show '='.utf8Size = 1 from rfl]
  cases hfind : [">>>=", ">>=", ">>>", ">>", ">=", ">"].find?
      fun p => p.toList.isPrefixOf (c :: tail) with
  | none => exact .inr rfl
  | some p =>
    have hstarts : p.toList.isPrefixOf (c :: tail) = true := by simpa using List.find?_some hfind
    exact .inl ⟨List.isPrefixOf_iff_prefix.mp hstarts,
      hoperators p (List.mem_of_find?_eq_some hfind)⟩

/-- The first character of a punctuator. -/
theorem single_at (h : t.At cs here rest) (hhead : ∃ c tail, here = c :: tail ∧ c.utf8Size = 1)
    (hkind : t.kind = .word ∨ t.kind = .punct) :
    (single t here).token.At cs (single t here).here (single t here).rest := by
  obtain ⟨c, tail, rfl, hc⟩ := hhead
  exact at_of_edge h.start (hc ▸ Leaves.cons c tail) rfl hkind ⟨c, tail, rfl, .inl hc⟩

/-- A name in markup. -/
theorem markupName_at (h : t.At cs here rest) (hkind : t.kind = .word) :
    (markupName t here rest).token.At cs (markupName t here rest).here
      (markupName t here rest).rest := by
  have hmore := leaves_takeWhile (fun c => c == '-' || continuesName c) rest
  exact {
    start := h.start
    stop := by
      show Leaves (t.stop + bytes _) cs _
      rw [bytes_eq]
      exact h.stop.trans hmore
    le := Nat.le_trans h.le (Nat.le_add_right _ _)
    done := h.done
    edge := fun _ => by
      obtain ⟨c, tail, rfl, hc⟩ := h.edge (.inl hkind)
      refine ⟨c, tail, rfl, hc.imp_right fun hhead => ?_⟩
      obtain ⟨text, htext⟩ := List.head?_eq_some_iff.mp hhead
      simp [markupName, htext]
    text := fun h => absurd (hkind.symm.trans h) (by simp)
    piece := fun _ _ _ h => absurd (hkind.symm.trans h) (by simp) }

end

end Lexer

end BaselineAudit.Script
