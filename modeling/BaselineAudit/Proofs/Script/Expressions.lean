import BaselineAudit.Proofs.Script.Functions
import BaselineAudit.Script.Parser.Expression

/-!
# Markup and expressions in the text

The parsers of markup and expressions yield sited trees.

* `Parser.markup_yields`.
* `Parser.templateRestFrom_laid`, `Parser.template_yields`: a template is laid out as its tree says.
* `Parser.primary_yields`, `Parser.leftHand_yields`: an expression with members starts in front of the
  end of the text, since nothing starts at its end.
* `Parser.assignment_yields`, `Parser.expression_yields`.
-/

namespace BaselineAudit.Script.Parser

open Lexer Text

variable {cs : List Char} {d : Descent} [hd : Descends cs d]

/-! ## Markup -/

section

omit hd

instance markupWord_keeps : Keeps cs markupWord := by
  unfold markupWord
  refine ⟨get_yieldsIf fun s hs => ?_⟩
  split
  next hword =>
    have hput := put_yieldsIf (markupName_at hs.token (by simpa [Token.isWord] using hword))
    exact .mono (fun _ h => h ▸ rfl) (hput.bind fun _ => Keeps.yields)
  next => exact .of_yields .fail

instance expectMarkup_keeps (text : String) (inside : Bool) : Keeps cs (expectMarkup text inside) := by
  unfold expectMarkup; infer_instance

instance markupMembersFrom_keeps (n : Nat) : Keeps cs (markupMembersFrom n) := by
  induction n with
  | zero => exact .fail
  | succ n ih => unfold markupMembersFrom; infer_instance

theorem markupWord_done {s : State} (hs : s.token.kind = .done) : markupWord s = none := by
  change (if s.token.isWord = true then _ else fail : P String) s = none
  rw [if_neg (by simp [Token.isWord, hs])]
  rfl

/-- The name of an element. There is no name at the end of the text. -/
theorem elementName_yields : Yields cs elementName fun name => name.node.Sited cs := by
  unfold elementName
  refine startHere_bind (fun _ _ hdone => bind_eq_none (markupWord_done hdone)) fun start hstart => ?_
  have hle := Nat.le_of_lt hstart
  refine .skip fun word => .bind (finish_yields hle hstart (by simp)) fun first hfirst =>
    .skip fun _ => .ite (fun _ => ?_) fun _ => ?_
  · exact .skip fun _ => .bind (finish_yields hle trivial (by simp)) fun _ hnode => .pure hnode
  · refine .skip fun _ => .skip fun _ => .skip fun _ => .bind (finish_yields hle trivial ?_)
      fun _ hnode => .pure hnode
    split <;> simp [hfirst]

end

theorem embedded_yields : Yields cs (embedded d) (Tree.Sited cs) := by
  unfold embedded
  exact .bind (within_yields (hd.yields _)) fun _ he => .skip fun _ => .pure he

theorem container_yields {inside : Bool} : Yields cs (container d inside) (Tree.Sited cs) := by
  unfold container
  refine .bind startHere_yields fun _ hstart => .skip fun _ => .skip fun _ => .skip fun _ => ?_
  extract_lets node
  have hnode : ∀ inner, Tree.SitedAll cs inner → Yields cs (node inner) (Tree.Sited cs) :=
    fun _ hinner => .skip fun _ => finish_yields hstart trivial hinner
  exact .ite (fun _ => hnode _ (by simp)) fun _ => .bind embedded_yields fun _ he =>
    hnode _ (by simp [he])

/-- The value of an attribute. A token that is none fails at once. -/
theorem attributeValue_yields : Yields cs (attributeValue d) (Tree.SitedAll cs) := by
  unfold attributeValue
  refine .skip fun _ => .ite (fun _ => advanceBy_yields (fun _ => attributeValue_behind) ?_ ?_) fun _ =>
    .nil
  · intro s hs
    rw [peek_bind]
    simp [Token.is, hs, fail]
  · exact .bind peek_yields fun t ht => .ite (fun _ => .skip fun _ =>
      .single (finish_yields ht.start_le trivial (by simp))) fun _ =>
        .ite (fun _ => .single container_yields) fun _ =>
          .ite (fun _ => .single (hd.yields _)) fun _ => .fail

theorem markupAttribute_yields : Yields cs (markupAttribute d) (Tree.Sited cs) := by
  unfold markupAttribute
  refine .bind startHere_yields fun _ hstart => .skip fun _ => .ite (fun _ => ?_) fun _ =>
    .skip fun _ => .skip fun _ => .ite (fun _ => .skip fun _ => ?_) fun _ => ?_
  · exact .skip fun _ => .bind embedded_yields fun _ he => .skip fun _ =>
      finish_yields hstart trivial (by simp [he])
  · exact .bind attributeValue_yields fun _ hvalue => finish_yields hstart trivial hvalue
  · exact .bind attributeValue_yields fun _ hvalue => finish_yields hstart trivial hvalue

theorem markupChild_yields : Yields cs (markupChild d) (Tree.Sited cs) := by
  have hcontent : Keeps cs (advanceBy content) := advanceBy_keeps fun _ => content_behind
  unfold markupChild
  refine .bind peek_yields fun t ht => .ite (fun hk => ?_) fun _ => .ite (fun _ => hd.yields _)
    fun _ => .ite (fun _ => ?_) fun _ => .fail
  · exact .skip fun _ => finish_yields ht.start_le (ht.text (by simpa using hk)) (by simp)
  · refine .skip fun _ => .ite (fun _ => ?_) fun _ => container_yields
    exact .skip fun _ => .skip fun _ => .bind embedded_yields fun _ he => .skip fun _ =>
      finish_yields ht.start_le trivial (by simp [he])

theorem markupContent_yields : Yields cs (markupContent d) (Tree.SitedAll cs) := by
  unfold markupContent
  exact many_yields (.single markupChild_yields)

theorem markup_yields {inside : Bool} : Yields cs (markup d inside) (Tree.Sited cs) := by
  unfold markup
  refine .bind startHere_yields fun _ hstart => .skip fun _ => .skip fun _ => .ite (fun _ => ?_)
    fun _ => ?_
  · exact .skip fun _ => .bind markupContent_yields fun _ hcontent => .skip fun _ => .skip fun _ =>
      .skip fun _ => finish_yields hstart trivial hcontent
  · refine .bind elementName_yields fun _ hname => .bind optionalTypeArguments_yields fun _ htypes =>
      .bind (many_yields (.single markupAttribute_yields)) fun _ hattrs => .skip fun _ =>
        .ite (fun _ => ?_) fun _ => ?_
    · exact .skip fun _ => finish_yields hstart trivial (by simp [hname, htypes, hattrs])
    · exact .skip fun _ => .bind markupContent_yields fun _ hcontent => .skip fun _ => .skip fun _ =>
        .bind elementName_yields fun _ hclosing => .skip fun _ => .skip fun _ =>
          finish_yields hstart trivial (by simp [hname, htypes, hattrs, hcontent, hclosing])

/-! ## Literals -/

theorem grouped_yields {α : Type} {p : P α} {Q : α → Prop} (hp : Yields cs p Q) :
    Yields cs (grouped p) Q := within_yields hp

instance grouped_keeps {α : Type} (p : P α) [Keeps cs p] : Keeps cs (grouped p) := by
  unfold grouped; infer_instance

omit hd in
instance takeTarget_stays (t : Tree) : Stays (takeTarget t) := by
  have hpending : ∀ f : List Nat → List Nat,
      Stays (modify fun s => { s with pending := f s.pending } : P PUnit) :=
    fun _ => .modify fun _ => ⟨rfl, rfl, rfl, rfl⟩
  unfold takeTarget
  exact .bind

omit hd in
instance takePlace_stays (t : Tree) : Stays (takePlace t) := by unfold takePlace; infer_instance

theorem templateRestFrom_yields {tagged : Bool} (n : Nat) :
    Yields cs (templateRestFrom d tagged n) fun r => Tree.SitedAll cs r.2 := by
  induction n with
  | zero => exact .fail
  | succ n ih =>
    unfold templateRestFrom
    refine .bind (grouped_yields (hd.yields _)) fun e he => ?_
    extract_lets rest
    have hrest : ∀ u, Yields cs (rest u) fun r => Tree.SitedAll cs r.2 := fun _ => .skip fun t => by
      cases hk : t.kind with
      | template starts ends cooked =>
        cases starts with
        | true => exact .fail
        | false =>
          exact .skip fun _ => .skip fun _ => .ite (fun _ => .pure (by simp [he])) fun _ =>
            .bind ih fun _ hes => .pure (by simp [he, hes])
      | _ => exact .fail
    exact isAt_yields rfl (relexTail_yieldsIf.bind hrest) (hrest ())

/-- Going on behind a piece of a template. -/
theorem piece_goes {b : Bool} {s s₁ s₂ : State} {u v : Unit} {starts ends : Bool}
    {cooked : Option String} (hs : s.At cs) (hkind : s.token.kind = .template starts ends cooked)
    (h₁ : flawIf b s = some (u, s₁)) (h₂ : bump s₁ = some (v, s₂)) :
    s.Goes cs s₂ ∧ StandsAt cs s.token.start [pieceStart starts] ∧
      StandsAt cs (s.token.start + 1) (s.token.text.toList ++ pieceEnd ends) ∧
      s₂.before = s.token.start + 1 + byteCount s.token.text.toList + byteCount (pieceEnd ends) := by
  have hsame := (flawIf_stays b).same h₁
  have hs₁ := hsame.goes hs
  have hs₂ := (bump_keeps.yields hs₁.stands h₂).1
  obtain ⟨hstands, hstop⟩ := hs.token.piece_stands hkind
  have hsize : byteCount [pieceStart starts] = 1 := by cases starts <;> rfl
  refine ⟨hs₁.trans hs₂, ?_, ?_, ?_⟩
  · exact StandsAt.left (v := [pieceStart starts]) hstands
  · rw [← hsize]
    exact StandsAt.right (v := [pieceStart starts]) hstands
  · rw [bump_before hs₁.stands h₂, hsame.token, hstop]

/-- The expressions of a template, each behind the piece in front of it and up to its brace. -/
theorem templateRestFrom_laid {tagged : Bool} (n : Nat) {s s' : State} {r : List Piece × List Tree}
    {start : Nat} (piece : Piece) (hs : s.At cs)
    (hopens : StandsAt cs start (piece.raw.toList ++ ['$', '\x7b']))
    (hbefore : s.before = start + byteCount piece.raw.toList + 2)
    (h : templateRestFrom d tagged n s = some (r, s')) :
    ∃ ranges, Laid cs start (piece :: r.1) (r.2.map Tree.span) ranges s'.before := by
  induction n generalizing s start piece r with
  | zero => cases h
  | succ n ih =>
    unfold templateRestFrom at h
    obtain ⟨e, s₁, h₁, h⟩ := exists_of_bind h
    have hs₁ := (grouped_yields (hd.yields .expression) hs h₁).1
    have he := within_covers (hd.covers .expression rfl) hs h₁
    extract_lets rest at h
    -- the brace is read again as the start of a piece
    obtain ⟨s₂, hs₂, hplace, h⟩ : ∃ s₂, s₁.Goes cs s₂ ∧ s₂.token.start = s₁.token.start ∧
        rest () s₂ = some (r, s') := by
      rw [isAt_bind] at h
      split at h
      next hclose =>
        obtain ⟨u, s₂, h₂, h⟩ := exists_of_bind h
        have hs₂ := (relexTail_yieldsIf hs₁.stands (narrow_of_is hs₁.stands hclose rfl) h₂).1
        obtain ⟨-, rfl⟩ := Prod.mk.inj (Option.some.inj h₂)
        exact ⟨_, hs₂, templateTail_start _ _, h⟩
      next => exact ⟨s₁, .refl hs₁.stands, rfl, h⟩
    unfold rest at h
    rw [peek_bind] at h
    obtain ⟨ends, cooked, hkind⟩ : ∃ ends cooked, s₂.token.kind = .template false ends cooked := by
      cases hkind : s₂.token.kind with
      | template starts ends cooked =>
        cases starts with
        | true => rw [hkind] at h; cases h
        | false => exact ⟨ends, cooked, rfl⟩
      | _ => rw [hkind] at h; cases h
    rw [hkind] at h
    obtain ⟨u, s₃, h₃, h⟩ := exists_of_bind h
    obtain ⟨v, s₄, h₄, h⟩ := exists_of_bind h
    obtain ⟨hs₄, hbrace, hpiece, hstop⟩ := piece_goes hs₂.stands hkind h₃ h₄
    have hlt := hs₂.stands.token.start_lt (by simp [hkind])
    have hstart := hs₁.start_le
    have hfront := hs.padded (by omega) (hs.token.here_ne_nil (by omega))
    have hback := hs₁.stands.padded (by have := hs₁.before_le; omega)
      (hs₁.stands.token.here_ne_nil (by omega))
    have hhead : Interpolates cs start piece e.span
        ⟨start + byteCount piece.raw.toList, s₂.token.start + 1⟩ := by
      constructor
      case range_start => rfl
      case opens => exact hopens
      case front =>
        rw [he.span, ← hbefore]
        exact hfront
      case le =>
        rw [he.span]
        exact he.le
      case back =>
        rw [he.span, Nat.add_sub_cancel, hplace]
        exact hback
      case closes => exact hbrace
    cases ends with
    | true =>
      obtain ⟨rfl, rfl⟩ := Prod.mk.inj (Option.some.inj h)
      refine ⟨[_], .cons hhead ?_⟩
      rw [hstop]
      exact .last hpiece
    | false =>
      obtain ⟨r', s₅, h₅, h⟩ := exists_of_bind h
      obtain ⟨rfl, rfl⟩ := Prod.mk.inj (Option.some.inj h)
      obtain ⟨ranges, hranges⟩ := ih ⟨cooked, s₂.token.text⟩ hs₄.stands hpiece hstop h₅
      exact ⟨_ :: ranges, .cons hhead hranges⟩

/-- A template with its pieces and expressions. -/
theorem template_yields {tagged : Bool} : Yields cs (template d tagged) fun t =>
    t.Sited cs ∧ ∃ pieces, t.shape = .template pieces := by
  intro s t s' hs h
  unfold template at h
  rw [peek_bind] at h
  obtain ⟨ends, cooked, hkind⟩ : ∃ ends cooked, s.token.kind = .template true ends cooked := by
    cases hkind : s.token.kind with
    | template starts ends cooked =>
      cases starts with
      | true => exact ⟨ends, cooked, rfl⟩
      | false => rw [hkind] at h; cases h
    | _ => rw [hkind] at h; cases h
  rw [hkind] at h
  obtain ⟨u, s₁, h₁, h⟩ := exists_of_bind h
  obtain ⟨v, s₂, h₂, h⟩ := exists_of_bind h
  obtain ⟨hs₂, -, hpiece, hstop⟩ := piece_goes hs hkind h₁ h₂
  have hstart := hs.token.start_le
  cases ends with
  | true =>
    obtain ⟨rfl, rfl⟩ := Prod.mk.inj (Option.some.inj h)
    refine ⟨hs₂, Tree.sited_node.mpr ⟨hstart, ⟨[], ?_⟩, by simp⟩, _, rfl⟩
    rw [hstop]
    exact .last hpiece
  | false =>
    obtain ⟨n, s₃, h₃, h⟩ := exists_of_bind h
    obtain ⟨-, rfl⟩ := Prod.mk.inj (Option.some.inj h₃)
    obtain ⟨r, s₄, h₄, h⟩ := exists_of_bind h
    obtain ⟨rfl, rfl⟩ := Prod.mk.inj (Option.some.inj h)
    obtain ⟨hs₄, hes⟩ := templateRestFrom_yields n hs₂.stands h₄
    obtain ⟨ranges, hlaid⟩ :=
      templateRestFrom_laid n ⟨cooked, s.token.text⟩ hs₂.stands hpiece hstop h₄
    exact ⟨hs₂.trans hs₄, Tree.sited_node.mpr ⟨hstart, ⟨ranges, hlaid⟩, hes⟩, _, rfl⟩

theorem regex_eq (s : State) : regex s = (match regex? s.token s.here with
    | none => fail
    | some l => do
      put l
      advance
      finish (.regex l.token.text) l.token.start []) s := rfl

/-- A regular expression from its slash on. -/
theorem regex_yieldsIf {text : String} (htext : text.toList.head?.all (·.utf8Size == 1) = true) :
    YieldsIf cs (fun s => s.token.kind = .punct ∧ s.token.text = text) regex (Tree.Sited cs) := by
  rintro s a s' hs ⟨hkind, hs_text⟩ h
  have hnarrow := narrow_of_is hs (by simp [Token.is, hkind, hs_text]) htext
  rw [regex_eq] at h
  cases hl : regex? s.token s.here with
  | none =>
    rw [hl] at h
    cases h
  | some l =>
    rw [hl] at h
    obtain ⟨hat, hstart⟩ := regex?_at hs.token hnarrow.1 hkind hl
    have hnode := (put_yieldsIf hat).bind (S := Tree.Sited cs) (f := fun _ => do
      advance
      finish (.regex l.token.text) l.token.start []) fun _ => .skip fun _ =>
        finish_yields hat.start_le trivial (by simp)
    exact hnode hs hstart.symm h

theorem spread_yields : Yields cs (spread d) (Tree.Sited cs) := by
  unfold spread
  exact .bind startHere_yields fun _ hstart => .skip fun _ => .bind (hd.yields _) fun _ he =>
    finish_yields hstart trivial (by simp [he])

theorem itemOrSpread_yields : Yields cs (itemOrSpread d) (Tree.Sited cs) := by
  unfold itemOrSpread
  exact .skip fun _ => .ite (fun _ => spread_yields) fun _ => hd.yields _

theorem array_yields : Yields cs (array d) (Tree.Sited cs) := by
  unfold array
  refine .bind startHere_yields fun _ hstart => .bind (grouped_yields (between_yields ?_))
    fun _ hitems => finish_yields hstart trivial hitems
  exact .skip fun _ => .ite (fun _ => .bind startHere_yields fun _ hhere =>
    finish_yields hhere trivial (by simp)) fun _ => itemOrSpread_yields

/-! ## Objects -/

theorem objectAccessor_yields {start : Nat} {mods : List String} {check : Parameters → P Unit}
    [∀ p, Keeps cs (check p)] (hstart : start ≤ byteCount cs) :
    Yields cs (objectAccessor d start mods check) (Tree.Sited cs) := by
  unfold objectAccessor
  exact .bind propertyKey_yields fun _ hkey => .bind method_yields fun _ hf => .skip fun _ =>
    .skip fun _ => finish_yields hstart trivial (by simp [hkey, hf])

theorem shorthandProperty_yields {t : Token} (ht : Seen cs t) (hname : t.isName = true) :
    Yields cs (shorthandProperty d t) (Tree.Sited cs) := by
  have hpending : Stays (modify fun s => { s with pending := t.start :: s.pending } : P PUnit) :=
    .modify fun _ => ⟨rfl, rfl, rfl, rfl⟩
  unfold shorthandProperty
  refine .skip fun _ => .skip fun _ =>
    .bind (finish_yields ht.start_le (ht.lt_of_isName hname) (by simp)) fun _ hnode =>
      .skip fun _ => .ite (fun _ => ?_) fun _ => finish_yields ht.start_le trivial (by simp [hnode])
  exact .skip fun _ => .bind (grouped_yields (hd.yields _)) fun _ hvalue =>
    finish_yields ht.start_le trivial (by simp [hnode, hvalue])

theorem property_yields : Yields cs (property d) (Tree.Sited cs) := by
  unfold property
  refine .bind startHere_yields fun _ hstart => .skip fun _ => .ite (fun _ => spread_yields)
    fun _ => .skip fun _ => .skip fun _ => .ite (fun _ => objectAccessor_yields hstart) fun _ =>
      .skip fun _ => .ite (fun _ => objectAccessor_yields hstart) fun _ => .skip fun _ =>
        .bind peek_yields fun t ht => .bind propertyKey_yields fun _ hkey => .skip fun _ =>
          .when (.skip fun _ => .when (.skip fun _ => .ite (fun _ => ?_) fun _ => .skip fun _ =>
            .skip fun _ => ?_))
  · exact .bind method_yields fun _ hf => .skip fun _ =>
      finish_yields hstart trivial (by simp [hkey, hf])
  · refine .ite (fun hshort => ?_) fun _ => ?_
    · exact shorthandProperty_yields ht (Bool.and_eq_true_iff.mp hshort).1
    · exact .skip fun _ => .bind (hd.yields _) fun _ hvalue =>
        finish_yields hstart trivial (by simp [hkey, hvalue])

theorem object_yields : Yields cs (object d) (Tree.Sited cs) := by
  unfold object
  exact .bind startHere_yields fun _ hstart => .bind (grouped_yields (between_yields property_yields))
    fun _ hitems => finish_yields hstart trivial hitems

/-! ## Expressions that start with a word -/

theorem importExpression_yields : Yields cs (importExpression d) (Tree.Sited cs) := by
  unfold importExpression
  refine .bind startHere_yields fun start hstart => .skip fun _ => .skip fun _ => ?_
  extract_lets behind
  have hbehind : ∀ isMeta, Yields cs (behind isMeta) (Tree.Sited cs) := by
    intro isMeta
    refine .ite (fun _ => finish_yields hstart trivial (by simp)) fun _ => .skip fun _ =>
      .bind (grouped_yields (hd.yields _)) fun source hsource => .skip fun _ => ?_
    extract_lets node
    have hnode : ∀ options, Tree.SitedAll cs options → Yields cs (node options) (Tree.Sited cs) :=
      fun _ hoptions => .skip fun _ => finish_yields hstart trivial (by simp [hsource, hoptions])
    exact .ite (fun _ => .skip fun _ => .ite (fun _ => hnode _ (by simp)) fun _ =>
      .bind (grouped_yields (hd.yields _)) fun _ hoptions => .skip fun _ =>
        hnode _ (by simp [hoptions])) fun _ => hnode _ (by simp)
  exact .ite (fun _ => .skip fun _ => .ite (fun _ => .skip fun _ => hbehind true) fun _ =>
    .skip fun _ => .ite (fun _ => .skip fun _ => hbehind false) fun _ => .fail) fun _ => hbehind false

theorem arguments_yields : Yields cs (arguments d) (Tree.SitedAll cs) := by
  unfold arguments
  exact .bind (grouped_yields (between_yields itemOrSpread_yields)) fun _ hitems => .pure hitems

omit hd in
theorem splitArguments_sited {t : Tree} (h : t.Sited cs) :
    (splitArguments t).1.Sited cs ∧ Tree.SitedAll cs (splitArguments t).2 := by
  unfold splitArguments
  split
  · exact Tree.sitedAll_cons.mp h.children
  · exact ⟨h, Tree.sitedAll_nil⟩

theorem newExpression_yields : Yields cs (newExpression d) (Tree.Sited cs) := by
  unfold newExpression
  refine .bind startHere_yields fun _ hstart => .skip fun _ => .skip fun _ => .ite (fun _ => ?_)
    fun _ => ?_
  · exact .skip fun _ => finish_yields hstart trivial (by simp)
  · refine .bind (hd.yields _) fun callee hcallee => ?_
    obtain ⟨hvalue, htypes⟩ := splitArguments_sited hcallee
    generalize splitArguments callee = r at hvalue htypes ⊢
    obtain ⟨value, types⟩ := r
    refine .skip fun _ => ?_
    extract_lets node
    have hnode : ∀ args, Tree.SitedAll cs args → Yields cs (node args) (Tree.Sited cs) :=
      fun _ hargs => .skip fun _ =>
        finish_yields hstart trivial (by simp [hvalue, htypes, hargs])
    exact .ite (fun _ => .bind arguments_yields hnode) fun _ => hnode _ (by simp)

omit hd in
theorem superExpression_yields : Yields cs superExpression (Tree.Sited cs) := by
  unfold superExpression
  exact .bind startHere_yields fun _ hstart => .skip fun _ => .skip fun _ => .skip fun _ =>
    finish_yields hstart trivial (by simp)

theorem parenthesized_yields : Yields cs (parenthesized d) (Tree.Sited cs) := by
  unfold parenthesized
  refine .bind startHere_yields fun _ hstart => .skip fun _ => .bind startHere_yields fun _ hinner =>
    .bind (grouped_yields (commas_yields (hd.yields _))) fun r hitems => .skip fun _ => ?_
  obtain ⟨items, trailing⟩ := r
  cases items with
  | nil => exact .fail
  | cons e rest =>
    cases rest with
    | nil => exact .skip fun _ => finish_yields hstart trivial hitems
    | cons =>
      exact .bind (finish_yields hinner trivial hitems) fun _ he => .skip fun _ =>
        finish_yields hstart trivial (by simp [he])

theorem decoratedClass_yields : Yields cs (decoratedClass d) (Tree.Sited cs) := by
  unfold decoratedClass
  exact .bind startHere_yields fun _ hstart => .bind decorators_yields fun _ hdecs =>
    classFrom_yields hstart hdecs

omit hd in
theorem wordLiteral_yields {shape : Shape} (hshape : ∀ start, shape.Fits cs start []) :
    Yields cs (wordLiteral shape) (Tree.Sited cs) := by
  unfold wordLiteral
  exact .bind startHere_yields fun _ hstart => .skip fun _ =>
    finish_yields hstart (hshape _) (by simp)

/-- An expression that is not made of smaller ones. -/
theorem primary_yields : Yields cs (primary d) (Tree.Sited cs) := by
  have literal : ∀ {shape : Shape}, (∀ start, shape.Fits cs start []) →
      Yields cs (wordLiteral shape) (Tree.Sited cs) := wordLiteral_yields
  unfold primary
  refine peek_yieldsIf fun t ht => ?_
  split
  · exact .of_yields (literal fun _ => trivial)
  · exact .of_yields (literal fun _ => trivial)
  · exact .of_yields (literal fun _ => trivial)
  · exact .of_yields (template_yields.imp fun _ h => h.1)
  next hkind =>
    split
    · exact .of_yields parenthesized_yields
    · exact .of_yields array_yields
    · exact .of_yields object_yields
    next htext => exact fun _ _ _ hs he => regex_yieldsIf rfl hs ⟨he ▸ hkind, he ▸ htext⟩
    next htext => exact fun _ _ _ hs he => regex_yieldsIf rfl hs ⟨he ▸ hkind, he ▸ htext⟩
    · exact .of_yields decoratedClass_yields
    · exact .of_yields .fail
  · refine .of_yields ?_
    split
    · exact literal fun _ => trivial
    · exact literal fun _ => trivial
    · exact literal fun _ => trivial
    · exact literal fun _ => trivial
    · exact functionExpression_yields
    · exact classFrom_yields ht.start_le (by simp)
    · exact newExpression_yields
    · exact superExpression_yields
    · exact importExpression_yields
    · exact .skip fun _ => .ite (fun _ => functionExpression_yields) fun _ => referenceName_yields
  · exact .of_yields .fail

/-! ## Members and calls -/

theorem primary_done {s : State} (hs : s.token.kind = .done) : primary d s = none := by
  unfold primary
  rw [peek_bind]
  simp [hs, fail]

theorem taggedTemplate_yields {tag : Tree} {inChain : Bool} (htag : tag.Sited cs) :
    Yields cs (taggedTemplate d tag inChain) (Tree.Sited cs) := by
  obtain ⟨hvalue, htypes⟩ := splitArguments_sited htag
  unfold taggedTemplate
  generalize splitArguments tag = r at hvalue htypes ⊢
  obtain ⟨value, types⟩ := r
  refine .bind template_yields fun text htext => .skip fun _ => ?_
  refine finish_yields hvalue.start_le (fun last hlast => ?_) (by simp [hvalue, htypes, htext.1])
  rw [List.getLast?_concat] at hlast
  exact Option.some.inj hlast ▸ htext.2

section

variable {start : Nat} (hstart : start < byteCount cs)

include hstart

omit hd in
theorem namedMember_yields {object : Tree} (hobject : object.Sited cs) :
    Yields cs (namedMember start object) (Tree.Sited cs) := by
  unfold namedMember
  refine .skip fun _ => .ite (fun _ => .skip fun _ => ?_) fun _ => .skip fun _ => ?_
  · exact finish_yields (Nat.le_of_lt hstart) trivial (by simp [hobject])
  · exact finish_yields (Nat.le_of_lt hstart) hstart (by simp [hobject])

theorem indexedMember_yields {object : Tree} (hobject : object.Sited cs) :
    Yields cs (indexedMember d start object) (Tree.Sited cs) := by
  unfold indexedMember
  exact .skip fun _ => .bind (grouped_yields (hd.yields _)) fun _ hi => .skip fun _ =>
    finish_yields (Nat.le_of_lt hstart) trivial (by simp [hobject, hi])

theorem membersFrom_yields (n : Nat) {e : Tree} {inChain : Bool} (he : e.Sited cs) :
    Yields cs (membersFrom d start n e inChain) fun r => r.1.Sited cs := by
  induction n generalizing e inChain with
  | zero => exact .fail
  | succ n ih =>
    unfold membersFrom
    refine .skip fun _ => .skip fun _ => .ite (fun _ => ?_) fun _ => .ite (fun _ => ?_) fun _ =>
      .ite (fun _ => .skip fun _ => .ite (fun _ => ?_) fun _ => .ite (fun _ => ?_) fun _ => .pure he)
        fun _ => .skip fun _ => .ite (fun _ => ?_) fun _ => .ite (fun _ => ?_) fun _ =>
          .skip fun _ => .ite (fun _ => .bind typeArgumentsInExpression_yields fun types? htypes => ?_)
            fun _ => .pure he
    · exact .skip fun _ => .bind (namedMember_yields hstart he) fun _ => ih
    · exact .bind (indexedMember_yields hstart he) fun _ => ih
    · exact .skip fun _ => .bind (namedMember_yields hstart he) fun _ => ih
    · exact .skip fun _ => .bind (indexedMember_yields hstart he) fun _ => ih
    · exact .skip fun _ =>
        .bind (finish_yields (Nat.le_of_lt hstart) trivial (by simp [he])) fun _ => ih
    · exact .bind (taggedTemplate_yields he) fun _ => ih
    · cases types? with
      | none => exact .pure he
      | some types =>
        exact .bind (finish_yields (Nat.le_of_lt hstart) trivial (by simp [he, htypes types rfl]))
          fun _ => ih

omit hstart in
theorem argumentsInChain_yields : Yields cs (argumentsInChain d) (Tree.SitedAll cs) := by
  unfold argumentsInChain
  refine .skip fun _ => .skip fun _ => .ite (fun _ => ?_) fun _ => .nil
  refine .bind typeArgumentsInExpression_yields fun types? htypes => ?_
  cases types? with
  | none => exact .fail
  | some types => exact .pure (htypes types rfl)

theorem callsFrom_yields (n : Nat) {e : Tree} {inChain : Bool} (he : e.Sited cs) :
    Yields cs (callsFrom d start n e inChain) fun r => r.1.Sited cs := by
  induction n generalizing e inChain with
  | zero => exact .fail
  | succ n ih =>
    unfold callsFrom
    refine .skip fun _ => .bind (membersFrom_yields hstart _ he) fun r he => .skip fun optional => ?_
    extract_lets inChain' behind
    have hbehind : ∀ given, Tree.SitedAll cs given →
        Yields cs (behind given) fun r => r.1.Sited cs := by
      intro given hgiven
      have hcallee : (if optional then (r.1, given) else splitArguments r.1).1.Sited cs ∧
          Tree.SitedAll cs (if optional then (r.1, given) else splitArguments r.1).2 := by
        split
        · exact ⟨he, hgiven⟩
        · exact splitArguments_sited he
      refine .skip fun _ => .ite (fun _ => ?_) fun _ =>
        .ite (fun _ => .ite (fun _ => .bind (taggedTemplate_yields he) fun _ => ih) fun _ => .fail)
          fun _ => .pure he
      generalize (if optional then (r.1, given) else splitArguments r.1) = parts at hcallee ⊢
      obtain ⟨f, types⟩ := parts
      refine .bind arguments_yields fun _ hargs => ?_
      exact .bind (finish_yields (Nat.le_of_lt hstart) trivial (by simp [hcallee, hargs])) fun _ => ih
    exact .ite (fun _ => .bind argumentsInChain_yields hbehind) fun _ => .bind .nil hbehind

end

theorem callee_yields : Yields cs (callee d) (Tree.Sited cs) := by
  unfold callee
  refine startHere_bind (fun _ _ hdone => bind_eq_none (primary_done hdone)) fun start hstart => ?_
  exact .bind primary_yields fun _ he => .skip fun _ => .bind (membersFrom_yields hstart _ he)
      fun _ he => .skip fun _ => .pure he

theorem leftHand_yields : Yields cs (leftHand d) (Tree.Sited cs) := by
  unfold leftHand
  refine startHere_bind (fun _ _ hdone => bind_eq_none (primary_done hdone)) fun start hstart => ?_
  exact .bind primary_yields fun _ he => .skip fun _ => .bind (callsFrom_yields hstart _ he)
      fun _ he => .ite (fun _ => finish_yields (Nat.le_of_lt hstart) trivial (by simp [he]))
        fun _ => .pure he

/-! ## Operators -/

omit hd in
instance isAwait_stays : Stays isAwait := by unfold isAwait; infer_instance

theorem unary_yields : Yields cs (unary d) (Tree.Sited cs) := by
  unfold unary
  refine .bind peek_yields fun t ht => .ite (fun _ => ?_) fun _ => .ite (fun _ => ?_) fun _ =>
    .ite (fun _ => ?_) fun _ => .skip fun _ => .ite (fun _ => ?_) fun _ => ?_
  · exact .skip fun _ => .bind (hd.yields _) fun _ he =>
      finish_yields ht.start_le trivial (by simp [he])
  · exact .skip fun _ => .bind (hd.yields _) fun _ he => .skip fun _ =>
      finish_yields ht.start_le trivial (by simp [he])
  · refine .skip fun _ => .ite (fun _ => hd.yields _) fun _ => .skip fun _ => .ite (fun _ => ?_)
      fun _ => .fail
    exact .skip fun _ => .bind (hd.yields _) fun _ hsaid => .skip fun _ => .bind (hd.yields _)
      fun _ he => finish_yields ht.start_le trivial (by simp [hsaid, he])
  · exact .skip fun _ => .skip fun _ => .skip fun _ => .bind (within_yields (hd.yields _))
      fun _ he => finish_yields ht.start_le trivial (by simp [he])
  · exact .bind leftHand_yields fun _ he => .skip fun _ => .ite (fun _ => .skip fun _ =>
      .skip fun _ => finish_yields ht.start_le trivial (by simp [he])) fun _ => .pure he

omit hd in
theorem operatorNode_yields {operator : String} {start : Nat} {l r : Tree}
    (hstart : start ≤ byteCount cs) (hl : l.Sited cs) (hr : r.Sited cs) :
    Yields cs (operatorNode operator start l r) (Tree.Sited cs) := by
  unfold operatorNode
  refine .skip fun _ => .skip fun _ => ?_
  extract_lets shape
  refine finish_yields hstart ?_ (by simp [hl, hr])
  unfold shape
  split
  · trivial
  · split <;> trivial

theorem operatorsFrom_yields {bound start : Nat} (hstart : start ≤ byteCount cs) (n : Nat) {l : Tree}
    (hl : l.Sited cs) : Yields cs (operatorsFrom d bound start n l) (Tree.Sited cs) := by
  induction n generalizing l with
  | zero => exact .fail
  | succ n ih =>
    unfold operatorsFrom
    extract_lets behind
    have hbehind : ∀ u, Yields cs (behind u) (Tree.Sited cs) := by
      refine fun _ => .skip fun t => ?_
      cases t.precedence? with
      | none => exact .pure hl
      | some p =>
        refine .ite (fun _ => .pure hl) fun _ => .skip fun _ => .ite (fun _ => .pure hl) fun _ =>
          .ite (fun _ => .ite (fun _ => .pure hl) fun _ => ?_) fun _ => ?_
        · exact .skip fun _ => .skip fun _ => .skip fun _ => .bind (hd.yields _) fun _ hsaid =>
            .bind (finish_yields hstart trivial (by simp [hl, hsaid])) fun _ => ih
        · exact .skip fun _ => .bind (hd.yields _) fun _ hr =>
            .bind (operatorNode_yields hstart hl hr) fun _ => ih
    exact isAt_yields rfl (relexAngle_yieldsIf.bind hbehind) (hbehind ())

theorem operators_yields {bound : Nat} : Yields cs (operators d bound) (Tree.Sited cs) := by
  unfold operators
  refine .bind peek_yields fun t ht => .skip fun _ => .ite (fun _ => ?_) fun _ => ?_
  · refine .skip fun _ => .skip fun _ => .bind (hd.yields _) fun _ hr => .when ?_
    exact .skip fun _ => .bind (finish_yields ht.start_le trivial (by simp [hr])) fun _ hl =>
      operatorsFrom_yields ht.start_le _ hl
  · exact .bind unary_yields fun _ hl => .skip fun _ => operatorsFrom_yields ht.start_le _ hl

/-! ## Arrow functions -/

omit hd in
instance guessArrow_stays : Stays guessArrow := by unfold guessArrow; infer_instance

theorem arrowHead_yields : Yields cs (arrowHead d) fun h => Tree.SitedAll cs h.parameters := by
  unfold arrowHead
  refine .skip fun _ => .bind (within_yields (Q := fun r =>
    Tree.SitedAll cs r.1 ∧ Tree.SitedAll cs r.2.1.nodes ∧ Tree.SitedAll cs r.2.2) ?_) fun _ hr => ?_
  · exact .bind typeParameters_yields fun _ hgenerics => .bind parameters_yields fun _ hps =>
      .bind returnType_yields fun _ hresult => .pure ⟨hgenerics, hps, hresult⟩
  · exact .skip fun _ => .skip fun _ => .skip fun _ => .skip fun _ => .pure (by simp [hr])

theorem arrowBody_yields {isAsync arrowType : Bool} :
    Yields cs (arrowBody d isAsync arrowType) (Tree.Sited cs) := by
  unfold arrowBody
  refine within_yields (.skip fun _ => .ite (fun _ => hd.yields _) fun _ => ?_)
  exact .bind startHere_yields fun _ hstart => .bind (hd.yields _) fun _ he =>
    .bind (finish_yields hstart trivial (by simp [he])) fun _ hs =>
      finish_yields hstart trivial (by simp [hs])

section

variable {start : Nat} (hstart : start ≤ byteCount cs)

include hstart

theorem arrowFrom_yields {h : ArrowHead} {arrowType : Bool} (hh : Tree.SitedAll cs h.parameters) :
    Yields cs (arrowFrom d start h arrowType) (Tree.Sited cs) := by
  unfold arrowFrom
  exact .bind arrowBody_yields fun _ hbody => finish_yields hstart trivial (by simp [hh, hbody])

omit hd hstart in
theorem parameterOf_sited {t : Tree} (h : t.Sited cs) : (parameterOf t).Sited cs := by
  unfold parameterOf
  split
  · exact Tree.sited_node.mpr ⟨h.start_le, trivial, h.children⟩
  · exact h

theorem simpleArrow_yields {isAsync arrowType : Bool} {parameter : Tree}
    (hparameter : parameter.Sited cs) :
    Yields cs (simpleArrow d start isAsync parameter arrowType) (Tree.Sited cs) := by
  unfold simpleArrow
  exact .skip fun _ => .skip fun _ => .skip fun _ =>
    arrowFrom_yields hstart (by simp [parameterOf_sited hparameter])

end

/-- An arrow function with parentheses. An attempt that is given up goes back to where it started. -/
theorem parenthesizedArrow_yields {arrowType : Bool} :
    Yields cs (parenthesizedArrow d arrowType) fun f? => ∀ f, f? = some f → f.Sited cs := by
  unfold parenthesizedArrow
  refine .bind startHere_yields fun _ hstart => .skip fun guess => ?_
  cases guess with
  | no => exact .pure (by simp)
  | yes =>
    exact .bind arrowHead_yields fun _ hh => .bind (arrowFrom_yields hstart hh) fun _ hf =>
      .pure (by simpa using hf)
  | maybe =>
    intro s a s' hs h
    obtain ⟨before, s₁, h₁, h⟩ := exists_of_bind h
    obtain ⟨rfl, rfl⟩ := Prod.mk.inj (Option.some.inj h₁)
    obtain ⟨h?, s₂, h₂, h⟩ := exists_of_bind h
    obtain ⟨hs₂, hh⟩ := attempt_yields arrowHead_yields hs h₂
    cases h? with
    | none =>
      obtain ⟨rfl, rfl⟩ := Prod.mk.inj (Option.some.inj h)
      exact ⟨hs₂, by simp⟩
    | some head =>
      obtain ⟨f, s₃, h₃, h⟩ := exists_of_bind h
      obtain ⟨hs₃, hf⟩ := arrowFrom_yields hstart (hh head rfl) hs₂.stands h₃
      rw [isAt_bind] at h
      split at h
      · obtain ⟨rfl, rfl⟩ := Prod.mk.inj (Option.some.inj h)
        exact ⟨.refl hs, by simp⟩
      · obtain ⟨rfl, rfl⟩ := Prod.mk.inj (Option.some.inj h)
        exact ⟨hs₂.trans hs₃, by simpa using hf⟩

omit hd in
instance startsAsyncArrow_stays : Stays (startsAsyncArrow d) := by
  unfold startsAsyncArrow; infer_instance

/-! ## Assignments and commas -/

theorem yieldExpression_yields : Yields cs (yieldExpression d) (Tree.Sited cs) := by
  unfold yieldExpression
  refine .bind startHere_yields fun _ hstart => .skip fun _ => .skip fun _ =>
    .ite (fun _ => finish_yields hstart trivial (by simp)) fun _ => .skip fun _ => .skip fun _ =>
      .ite (fun _ => finish_yields hstart trivial (by simp)) fun _ => ?_
  exact .bind (hd.yields _) fun _ he => finish_yields hstart trivial (by simp [he])

theorem conditional_yields {start : Nat} {condition : Tree} {arrowType : Bool}
    (hstart : start ≤ byteCount cs) (hcondition : condition.Sited cs) :
    Yields cs (conditional d start condition arrowType) (Tree.Sited cs) := by
  unfold conditional
  refine .skip fun _ => .ite (fun _ => ?_) fun _ => .pure hcondition
  exact .bind (grouped_yields (hd.yields _)) fun _ hyes => .skip fun _ => .bind (hd.yields _)
    fun _ hno => finish_yields hstart trivial (by simp [hcondition, hyes, hno])

theorem assignment_yields {arrowType : Bool} : Yields cs (assignment d arrowType) (Tree.Sited cs) := by
  unfold assignment
  refine .bind startHere_yields fun start hstart => .skip fun _ => .skip fun _ =>
    .ite (fun _ => yieldExpression_yields) fun _ => .bind parenthesizedArrow_yields fun f? hf => ?_
  cases f? with
  | some f => exact .pure (hf f rfl)
  | none =>
    refine .skip fun _ => .ite (fun _ => ?_) fun _ => .bind operators_yields fun l hl =>
      .skip fun t => .ite (fun _ => simpleArrow_yields hstart hl) fun _ => .ite (fun _ => ?_)
        fun _ => conditional_yields hstart hl
    · exact .skip fun _ => .bind operators_yields fun _ he => simpleArrow_yields hstart he
    · extract_lets behind
      have hbehind : ∀ u, Yields cs (behind u) (Tree.Sited cs) := fun _ => .skip fun _ =>
        .bind (hd.yields _) fun _ hr => finish_yields hstart trivial (by simp [hl, hr])
      exact .ite (fun _ => .skip hbehind) fun _ => .skip hbehind

theorem expression_yields : Yields cs (expression d) (Tree.Sited cs) := by
  unfold expression
  refine .bind startHere_yields fun _ hstart => .bind (within_yields (hd.yields _)) fun _ hfirst =>
    .skip fun _ => .ite (fun _ => .bind (many_yields ?_) fun _ hrest => ?_) fun _ => .pure hfirst
  · exact .skip fun _ => .single (hd.yields _)
  · exact finish_yields hstart trivial (by simp [hfirst, hrest])

end BaselineAudit.Script.Parser
