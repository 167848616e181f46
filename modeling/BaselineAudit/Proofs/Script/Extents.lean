import BaselineAudit.Proofs.Script.Expressions

/-!
# Where expressions start and end

The tree of an expression reaches from the token at which its parser started up to the last token that it
took, and it took at least one.

* `Ensures`: what holds behind a parser, if something holds in front of it. The places that count are
  the token in front of which the parser is (`State.Here`, `State.Ahead`) and the one behind which it is
  (`State.Behind`, `Tree.Ends`).
* `Passes`: a parser that takes a token.
* `Parser.primary_covers`, `Parser.leftHand_covers`, `Parser.operators_covers`,
  `Parser.assignment_covers`, `Parser.expression_covers`, `Parser.markup_covers`.
-/

namespace BaselineAudit.Script

open Lexer

/-! ## Places -/

/-- The current token starts at an offset. -/
def State.Here (n : Nat) (s : State) : Prop := s.token.start = n

/-- The current token starts at an offset or behind it. -/
def State.Ahead (n : Nat) (s : State) : Prop := n ≤ s.token.start

/-- A token that starts at an offset or behind it was taken. -/
def State.Behind (n : Nat) (s : State) : Prop := n ≤ s.before

/-- A tree reaches from an offset up to the last token that was taken. -/
def Tree.Ends (n : Nat) (t : Tree) (s : State) : Prop := t.Reaches n s.before

/-- What holds behind a parser, if something holds in front of it. -/
def Ensures (cs : List Char) {α : Type} (H : State → Prop) (p : P α) (Q : α → State → Prop) : Prop :=
  ∀ ⦃s a s'⦄, s.At cs → H s → p s = some (a, s') → s'.At cs ∧ Q a s'

/-- A parser takes a token. -/
class Passes (cs : List Char) {α : Type} (p : P α) : Prop extends Keeps cs p where
  passes : ∀ ⦃s a s'⦄, s.At cs → p s = some (a, s') → s.token.start ≤ s'.before

/-- Something about the place of a state. -/
class Placed (H : State → Prop) : Prop where
  same : ∀ ⦃s s'⦄, s.Same s' → H s → H s'

/-- Something that goes on to hold further on. -/
class Lasting (cs : List Char) (H : State → Prop) : Prop where
  goes : ∀ ⦃s s'⦄, s.Goes cs s' → H s → H s'

section

variable {cs : List Char} {α β : Type} {n : Nat}

instance : Placed (State.Here n) := ⟨fun _ _ h hs => (congrArg Token.start h.token).trans hs⟩

instance (e : Tree) : Placed (e.Ends n) := ⟨fun _ _ h hs => by rw [Tree.Ends, h.before]; exact hs⟩

instance : Lasting cs (State.Ahead n) := ⟨fun _ _ h hs => Nat.le_trans hs h.start_le⟩

instance : Lasting cs (State.Behind n) := ⟨fun _ _ h hs => Nat.le_trans hs h.before_le⟩

namespace Ensures

variable {p q : P α} {f : α → P β} {H H' : State → Prop} {R : α → State → Prop} {Q : β → State → Prop}

theorem fail : Ensures cs H (Parser.fail : P β) Q :=
  fun _ _ _ _ _ h => absurd h (by simp [Parser.fail])

theorem pure {b : β} (h : ∀ s, H s → Q b s) : Ensures cs H (pure b) Q := by
  intro s a s' hs hH hp
  obtain ⟨rfl, rfl⟩ := Prod.mk.inj (Option.some.inj hp)
  exact ⟨hs, h s hH⟩

theorem mono (hH : ∀ s, H s → H' s) (hp : Ensures cs H' p R) : Ensures cs H p R :=
  fun s _ _ hs h => hp hs (hH s h)

theorem ite {c : Prop} [Decidable c] (hp : c → Ensures cs H p R) (hq : ¬c → Ensures cs H q R) :
    Ensures cs H (if c then p else q) R := by
  split
  · exact hp ‹_›
  · exact hq ‹_›

theorem bind (hp : Ensures cs H p R) (hf : ∀ a, Ensures cs (R a) (f a) Q) :
    Ensures cs H (p >>= f) Q := by
  intro s b s' hs hH h
  obtain ⟨a, s₁, h₁, h₂⟩ := exists_of_bind h
  obtain ⟨hs₁, hR⟩ := hp hs hH h₁
  exact hf a hs₁ hR h₂

/-- A step that goes nowhere. -/
theorem stay [hp : Stays p] [hH : Placed H] (hf : ∀ a, Ensures cs H (f a) Q) :
    Ensures cs H (p >>= f) Q :=
  bind (R := fun _ => H) (fun _ _ _ hs h hp' =>
    ⟨((hp.same hp').goes hs).stands, hH.same (hp.same hp') h⟩) hf

/-- A step that goes on. -/
theorem keep [hp : Keeps cs p] [hH : Lasting cs H] (hf : ∀ a, Ensures cs H (f a) Q) :
    Ensures cs H (p >>= f) Q :=
  bind (R := fun _ => H) (fun _ _ _ hs h hp' =>
    ⟨(hp.yields hs hp').1.stands, hH.goes (hp.yields hs hp').1 h⟩) hf

/-- A step that takes a token. -/
theorem pass [hp : Passes cs p] (hf : ∀ a, Ensures cs (State.Behind n) (f a) Q) :
    Ensures cs (State.Ahead n) (p >>= f) Q :=
  bind (R := fun _ => State.Behind n) (fun _ _ _ hs h hp' =>
    ⟨(hp.yields hs hp').1.stands, Nat.le_trans h (hp.passes hs hp')⟩) hf

theorem of_ahead (hp : Ensures cs (State.Ahead n) p R) : Ensures cs (State.Here n) p R :=
  hp.mono fun _ h => Nat.le_of_eq h.symm

/-- Behind a tree a token was taken. Where the tree starts stays known. -/
theorem of_behind {e : Tree} (hp : ∀ m, e.Reaches n m → Ensures cs (State.Behind n) p R) :
    Ensures cs (e.Ends n) p R := fun s _ _ hs h => hp s.before h hs h.le

/-- A node that ends here. -/
theorem finish {shape : Shape} {children : List Tree} (hshape : shape ≠ .instantiation) :
    Ensures cs (State.Behind n) (Parser.finish shape n children) (Tree.Ends n) := by
  intro s t s' hs hn h
  obtain ⟨rfl, rfl⟩ := Prod.mk.inj (Option.some.inj h)
  exact ⟨hs, rfl, hn, fun _ _ h => absurd h hshape⟩

/-- A value with type arguments. -/
theorem finish_instantiation {e : Tree} {types : List Tree} (he : e.span.start = n) :
    Ensures cs (State.Behind n) (Parser.finish .instantiation n (e :: types)) (Tree.Ends n) := by
  intro s t s' hs hn h
  obtain ⟨rfl, rfl⟩ := Prod.mk.inj (Option.some.inj h)
  exact ⟨hs, rfl, hn, fun _ _ _ h => (List.cons.inj h).1 ▸ he⟩

theorem startHere {f : Nat → P β} (hf : Ensures cs (State.Here n) (f n) Q) :
    Ensures cs (State.Here n) (Parser.startHere >>= f) Q := by
  intro s b s' hs hn h
  change f s.token.start s = some (b, s') at h
  rw [show s.token.start = n from hn] at h
  exact hf hs hn h

/-- A token that may be taken. Where the tree in front of it starts stays known. -/
theorem eat {text : String} {f : Bool → P β} {e : Tree}
    (htrue : ∀ m, e.Reaches n m → Ensures cs (State.Behind n) (f true) Q)
    (hfalse : Ensures cs (e.Ends n) (f false) Q) :
    Ensures cs (e.Ends n) (Parser.eat text >>= f) Q := by
  intro s b s' hs he h
  obtain ⟨a, s₁, h₁, h₂⟩ := exists_of_bind h
  have hkeeps : Keeps cs (Parser.eat text) := inferInstance
  have hs₁ := (hkeeps.yields hs h₁).1
  unfold Parser.eat at h₁
  rw [Parser.isAt_bind] at h₁
  split at h₁
  · obtain ⟨u, s₂, h₃, h₄⟩ := exists_of_bind h₁
    obtain ⟨rfl, rfl⟩ := Prod.mk.inj (Option.some.inj h₄)
    exact htrue _ he hs₁.stands (Nat.le_trans he.le hs₁.before_le) h₂
  · obtain ⟨rfl, rfl⟩ := Prod.mk.inj (Option.some.inj h₁)
    exact hfalse hs he h₂

end Ensures

namespace Covers

variable {p : P Tree}

theorem ensures [hp : Keeps cs p] (h : Covers cs p) : Ensures cs (State.Here n) p (Tree.Ends n) :=
  fun _ _ _ hs hn hp' => ⟨(hp.yields hs hp').1.stands, hn ▸ h hs hp'⟩

theorem of_ensures (h : ∀ n, Ensures cs (State.Here n) p (Tree.Ends n)) : Covers cs p :=
  fun s _ _ hs hp => (h s.token.start hs rfl hp).2

/-- A parser that notes where it starts. -/
theorem startHere {f : Nat → P Tree} (h : ∀ n, Ensures cs (State.Here n) (f n) (Tree.Ends n)) :
    Covers cs (Parser.startHere >>= f) := of_ensures fun n => .startHere (h n)

/-- A parser that notes where it starts and takes tokens. -/
theorem start {f : Nat → P Tree} (h : ∀ n, Ensures cs (State.Ahead n) (f n) (Tree.Ends n)) :
    Covers cs (Parser.startHere >>= f) := startHere fun n => .of_ahead (h n)

/-- A parser that looks at the token at which it starts. -/
theorem peek {f : Token → P Tree}
    (h : ∀ t : Token, Ensures cs (fun s => s.token = t) (f t) (Tree.Ends t.start)) :
    Covers cs (Parser.peek >>= f) := fun s _ _ hs hp => (h s.token hs rfl hp).2

/-- The same where only its start counts. -/
theorem peekStart {f : Token → P Tree}
    (h : ∀ t : Token, Ensures cs (State.Here t.start) (f t) (Tree.Ends t.start)) :
    Covers cs (Parser.peek >>= f) := peek fun t => (h t).mono fun _ hs => congrArg Token.start hs

end Covers

namespace Passes

variable {p q : P α} {f : α → P β}

/-- A token is taken at first. -/
instance bind [hp : Passes cs p] [hf : ∀ a, Keeps cs (f a)] : Passes cs (p >>= f) where
  passes := fun s b s' hs h => by
    obtain ⟨a, s₁, h₁, h₂⟩ := exists_of_bind h
    have hs₁ := (hp.yields hs h₁).1
    exact Nat.le_trans (hp.passes hs h₁) ((hf a).yields hs₁.stands h₂).1.before_le

/-- A token is taken behind a step. -/
theorem behind [hp : Keeps cs p] [hf : ∀ a, Passes cs (f a)] : Passes cs (p >>= f) where
  passes := fun s b s' hs h => by
    obtain ⟨a, s₁, h₁, h₂⟩ := exists_of_bind h
    have hs₁ := (hp.yields hs h₁).1
    exact Nat.le_trans hs₁.start_le ((hf a).passes hs₁.stands h₂)

instance fail : Passes cs (Parser.fail : P α) where
  passes := fun _ _ _ _ h => absurd h (by simp [Parser.fail])

instance ite {c : Prop} [Decidable c] [hp : Passes cs p] [hq : Passes cs q] :
    Passes cs (if c then p else q) := by
  split
  · exact hp
  · exact hq

end Passes

end

namespace Parser

variable {cs : List Char} {d : Descent} [hd : Descends cs d] {n : Nat}

/-! ## Steps -/

section

omit hd

theorem advanceBy_passes {read : Cursor → Lexed}
    (hread : ∀ p, Leaves p.offset cs p.rest → (read p).Behind cs p) : Passes cs (advanceBy read) where
  toKeeps := advanceBy_keeps hread
  passes := fun _ _ _ hs h =>
    (advanceBy_goes hs (hread _ hs.token.stop) h).2.symm ▸ hs.token.le

instance bumpName_passes : Passes cs bumpName := advanceBy_passes fun _ => next_behind

instance bump_passes : Passes cs bump := by
  have hadvance : Passes cs advance := bumpName_passes
  unfold bump
  exact .behind

instance expect_passes (text : String) : Passes cs (expect text) := by
  unfold expect
  exact .behind

/-- An attempt that fails changes nothing. -/
theorem attempt_ensures {α : Type} {p : P α} {H : State → Prop} {Q : α → State → Prop}
    (hp : Ensures cs H p Q) : Ensures cs H (attempt p) fun a? => a?.elim H Q := by
  intro s a? s' hs hH h
  unfold attempt at h
  split at h
  next a s₁ ha =>
    obtain ⟨rfl, rfl⟩ := Prod.mk.inj (Option.some.inj h)
    exact hp hs hH ha
  next =>
    obtain ⟨rfl, rfl⟩ := Prod.mk.inj (Option.some.inj h)
    exact ⟨hs, hH⟩

instance within_passes {α : Type} (change : Context → Context) (p : P α) [hp : Passes cs p] :
    Passes cs (within change p) := by
  have hcontext : ∀ c, Stays (modify fun s => { s with context := c } : P PUnit) :=
    fun _ => .modify fun _ => ⟨rfl, rfl, rfl, rfl⟩
  have hbehind : ∀ c, Passes cs (modify (fun s => { s with context := change c }) >>=
      fun _ : PUnit => p >>= fun a => modify (fun s => { s with context := c }) >>=
        fun _ : PUnit => pure a) := fun _ => .behind
  unfold within
  exact .behind

instance grouped_passes {α : Type} (p : P α) [Passes cs p] : Passes cs (grouped p) := by
  unfold grouped; infer_instance

instance between_passes (opening close : String) (item : P Tree) [Keeps cs item] :
    Passes cs (between opening close item) := by
  unfold between; infer_instance

theorem referenceName_covers : Covers cs referenceName := by
  unfold referenceName
  exact .peekStart fun _ => .of_ahead (.ite (fun _ => .keep fun _ => .keep fun _ => .pass fun _ =>
    .finish (by simp)) fun _ => .fail)

theorem wordLiteral_covers {shape : Shape} (hshape : shape ≠ .instantiation) :
    Covers cs (wordLiteral shape) := by
  unfold wordLiteral
  exact .start fun _ => .pass fun _ => .finish hshape

end

/-! ## Expressions of one piece -/

instance optionalName_keeps (c : Context) : Keeps cs (optionalName c) := optionalName_yields.keeps

instance typeParameters_keeps : Keeps cs (typeParameters d) := typeParameters_yields.keeps

instance parameters_keeps : Keeps cs (parameters d) := parameters_yields.keeps

instance returnType_keeps : Keeps cs (returnType d) := returnType_yields.keeps

instance optionalTypeArguments_keeps : Keeps cs (optionalTypeArguments d) :=
  optionalTypeArguments_yields.keeps

instance functionParts_keeps (isAsync isGenerator : Bool) :
    Keeps cs (functionParts d isAsync isGenerator) := functionParts_yields.keeps

instance heritageFrom_keeps (n : Nat) (extended implementing : Bool) :
    Keeps cs (heritageFrom d n extended implementing) :=
  (heritageFrom_yields n extended implementing).keeps

instance classBody_keeps : Keeps cs (classBody d) := classBody_yields.keeps

instance itemOrSpread_keeps : Keeps cs (itemOrSpread d) := itemOrSpread_yields.keeps

instance property_keeps : Keeps cs (property d) := property_yields.keeps

instance arguments_keeps : Keeps cs (arguments d) := arguments_yields.keeps

instance templateRestFrom_keeps (tagged : Bool) (n : Nat) : Keeps cs (templateRestFrom d tagged n) :=
  (templateRestFrom_yields n).keeps

instance template_keeps (tagged : Bool) : Keeps cs (template d tagged) := template_yields.keeps

instance functionExpression_keeps : Keeps cs (functionExpression d) := functionExpression_yields.keeps

theorem functionExpression_covers : Covers cs (functionExpression d) := by
  unfold functionExpression
  exact .start fun _ => .keep fun _ => .pass fun _ => .keep fun _ => .keep fun _ => .keep fun _ =>
    .keep fun _ => .finish (by simp)

theorem classFrom_ensures {decs : List Tree} {needsName : Bool} :
    Ensures cs (State.Ahead n) (classFrom d n decs needsName) (Tree.Ends n) := by
  unfold classFrom
  refine .pass fun _ => .keep fun _ => ?_
  extract_lets behind
  have hbehind : ∀ name, Ensures cs (State.Behind n) (behind name) (Tree.Ends n) := fun _ =>
    .keep fun _ => .keep fun _ => .keep fun _ => .keep fun _ => .keep fun _ => .finish (by simp)
  exact .ite (fun _ => hbehind _) fun _ => .keep fun _ => .keep hbehind

theorem decoratedClass_covers : Covers cs (decoratedClass d) := by
  unfold decoratedClass
  exact .start fun _ => .keep fun _ => classFrom_ensures

theorem template_covers {tagged : Bool} : Covers cs (template d tagged) := by
  unfold template
  refine .peekStart fun t => .of_ahead ?_
  split
  · exact .keep fun _ => .pass fun _ => .ite (fun _ => .finish (by simp)) fun _ => .keep fun _ =>
      .keep fun _ => .finish (by simp)
  · exact .fail

theorem array_covers : Covers cs (array d) := by
  unfold array
  exact .start fun _ => .pass fun _ => .finish (by simp)

theorem object_covers : Covers cs (object d) := by
  unfold object
  exact .start fun _ => .pass fun _ => .finish (by simp)

theorem importExpression_covers : Covers cs (importExpression d) := by
  unfold importExpression
  refine .start fun n => .pass fun _ => .keep fun _ => ?_
  extract_lets behind
  have hbehind : ∀ isMeta, Ensures cs (State.Behind n) (behind isMeta) (Tree.Ends n) := by
    refine fun _ => .ite (fun _ => .finish (by simp)) fun _ => .keep fun _ => .keep fun _ =>
      .keep fun _ => ?_
    extract_lets node
    have hnode : ∀ options, Ensures cs (State.Behind n) (node options) (Tree.Ends n) :=
      fun _ => .keep fun _ => .finish (by simp)
    exact .ite (fun _ => .keep fun _ => .ite (fun _ => hnode _) fun _ => .keep fun _ =>
      .keep fun _ => hnode _) fun _ => hnode _
  exact .ite (fun _ => .keep fun _ => .ite (fun _ => .keep fun _ => .keep hbehind) fun _ =>
    .keep fun _ => .ite (fun _ => .keep fun _ => .keep hbehind) fun _ => .fail) fun _ => .keep hbehind

theorem newExpression_covers : Covers cs (newExpression d) := by
  unfold newExpression
  refine .start fun n => .pass fun _ => .keep fun _ => .ite (fun _ => .keep fun _ => .finish (by simp))
    fun _ => .keep fun callee => ?_
  obtain ⟨value, types⟩ := splitArguments callee
  refine .keep fun _ => ?_
  extract_lets node
  have hnode : ∀ args, Ensures cs (State.Behind n) (node args) (Tree.Ends n) := fun _ => .keep fun _ =>
    .finish (by simp)
  exact .ite (fun _ => .keep hnode) fun _ => hnode _

omit hd in
theorem superExpression_covers : Covers cs superExpression := by
  unfold superExpression
  exact .start fun _ => .pass fun _ => .keep fun _ => .keep fun _ => .finish (by simp)

theorem parenthesized_covers : Covers cs (parenthesized d) := by
  unfold parenthesized
  refine .start fun n => .pass fun _ => .keep fun _ => .keep fun r => .keep fun _ => ?_
  obtain ⟨items, trailing⟩ := r
  cases items with
  | nil => exact .fail
  | cons e rest =>
    cases rest with
    | nil => exact .keep fun _ => .finish (by simp)
    | cons => exact .keep fun _ => .keep fun _ => .finish (by simp)

/-- A regular expression from its slash on. -/
theorem regex_ensures {t : Token} {text : String}
    (htext : text.toList.head?.all (·.utf8Size == 1) = true) (hkind : t.kind = .punct)
    (ht : t.text = text) : Ensures cs (fun s => s.token = t) regex (Tree.Ends t.start) := by
  rintro s a s' hs rfl h
  have hs' := (regex_yieldsIf htext hs ⟨hkind, ht⟩ h).1.stands
  have hnarrow := narrow_of_is hs (by simp [Token.is, hkind, ht]) htext
  rw [regex_eq] at h
  cases hl : regex? s.token s.here with
  | none =>
    rw [hl] at h
    cases h
  | some l =>
    rw [hl] at h
    obtain ⟨hat, hstart⟩ := regex?_at hs.token hnarrow.1 hkind hl
    obtain ⟨u, s₁, h₁, h⟩ := exists_of_bind h
    have hs₁ := (put_yieldsIf hat hs hstart.symm h₁).1
    obtain ⟨-, rfl⟩ := Prod.mk.inj (Option.some.inj h₁)
    have hnode : Ensures cs (State.Ahead s.token.start) (do
        advance
        finish (.regex l.token.text) l.token.start []) (Tree.Ends s.token.start) := by
      rw [hstart]
      have hadvance : Passes cs advance := bumpName_passes
      exact .pass fun _ => .finish (by simp)
    exact hnode hs₁.stands hs₁.start_le h

/-- An expression that is not made of smaller ones. -/
theorem primary_covers : Covers cs (primary d) := by
  have here : ∀ {t : Token} {p : P Tree}, Keeps cs p → Covers cs p →
      Ensures cs (fun s => s.token = t) p (Tree.Ends t.start) := fun _ hp =>
    hp.ensures.mono fun _ hs => congrArg Token.start hs
  have literal : ∀ {t : Token} {shape : Shape}, (∀ start, shape.Fits cs start []) →
      shape ≠ .instantiation → Ensures cs (fun s => s.token = t) (wordLiteral shape) (Tree.Ends t.start) :=
    fun hfits hshape => here (wordLiteral_yields hfits).keeps (wordLiteral_covers hshape)
  unfold primary
  refine .peek fun t => ?_
  split
  · exact literal (fun _ => trivial) (by simp)
  · exact literal (fun _ => trivial) (by simp)
  · exact literal (fun _ => trivial) (by simp)
  · exact here inferInstance template_covers
  next hkind =>
    split
    · exact here parenthesized_yields.keeps parenthesized_covers
    · exact here array_yields.keeps array_covers
    · exact here object_yields.keeps object_covers
    next htext => exact regex_ensures rfl hkind htext
    next htext => exact regex_ensures rfl hkind htext
    · exact here decoratedClass_yields.keeps decoratedClass_covers
    · exact .fail
  · split
    · exact literal (fun _ => trivial) (by simp)
    · exact literal (fun _ => trivial) (by simp)
    · exact literal (fun _ => trivial) (by simp)
    · exact literal (fun _ => trivial) (by simp)
    · exact here inferInstance functionExpression_covers
    · exact classFrom_ensures.mono fun _ hs => Nat.le_of_eq (congrArg Token.start hs).symm
    · exact here newExpression_yields.keeps newExpression_covers
    · exact here superExpression_yields.keeps superExpression_covers
    · exact here importExpression_yields.keeps importExpression_covers
    · refine .mono (fun s hs => show s.Here t.start from congrArg Token.start hs) ?_
      exact .stay fun _ => .ite (fun _ => functionExpression_covers.ensures) fun _ =>
        referenceName_covers.ensures
  · exact .fail

instance primary_keeps : Keeps cs (primary d) := primary_yields.keeps

/-! ## Members and calls -/

omit hd in
theorem splitArguments_start {t : Tree} {m : Nat} (h : t.Reaches n m) :
    (splitArguments t).1.span.start = n := by
  unfold splitArguments
  split
  next value types => exact h.inner value types rfl rfl
  next => rw [h.span]

theorem taggedTemplate_ensures {tag : Tree} {inChain : Bool} {m : Nat} (htag : tag.Reaches n m) :
    Ensures cs (State.Behind n) (taggedTemplate d tag inChain) (Tree.Ends n) := by
  have hstart := splitArguments_start htag
  unfold taggedTemplate
  generalize splitArguments tag = r at hstart ⊢
  obtain ⟨value, types⟩ := r
  obtain rfl : value.span.start = n := hstart
  exact .keep fun _ => .keep fun _ => .finish (by simp)

omit hd in
theorem namedMember_ensures {object : Tree} :
    Ensures cs (State.Behind n) (namedMember n object) (Tree.Ends n) := by
  unfold namedMember
  exact .keep fun _ => .ite (fun _ => .keep fun _ => .finish (by simp)) fun _ => .keep fun _ =>
    .finish (by simp)

theorem indexedMember_ensures {object : Tree} :
    Ensures cs (State.Behind n) (indexedMember d n object) (Tree.Ends n) := by
  unfold indexedMember
  exact .keep fun _ => .keep fun _ => .keep fun _ => .finish (by simp)

instance typeArgumentsInExpression_keeps : Keeps cs (typeArgumentsInExpression d) :=
  typeArgumentsInExpression_yields.keeps

/-- Type arguments that are none leave everything as it was. -/
theorem typeArguments_ensures {β : Type} {f : Option (List Tree) → P β} {Q : β → State → Prop}
    {e : Tree} (hsome : ∀ types m, e.Reaches n m → Ensures cs (State.Behind n) (f (some types)) Q)
    (hnone : Ensures cs (e.Ends n) (f none) Q) :
    Ensures cs (e.Ends n) (typeArgumentsInExpression d >>= f) Q := by
  intro s b s' hs he h
  obtain ⟨types?, s₁, h₁, h₂⟩ := exists_of_bind h
  have hs₁ := (typeArgumentsInExpression_keeps.yields hs h₁).1
  cases types? with
  | some types => exact hsome types _ he hs₁.stands (Nat.le_trans he.le hs₁.before_le) h₂
  | none =>
    unfold typeArgumentsInExpression attempt at h₁
    split at h₁
    · cases h₁
    · obtain ⟨-, rfl⟩ := Prod.mk.inj (Option.some.inj h₁)
      exact hnone hs he h₂

theorem membersFrom_ensures (k : Nat) {e : Tree} {inChain : Bool} :
    Ensures cs (e.Ends n) (membersFrom d n k e inChain) fun r => r.1.Ends n := by
  induction k generalizing e inChain with
  | zero => exact .fail
  | succ k ih =>
    unfold membersFrom
    refine .stay fun _ => .stay fun _ => .ite (fun _ => ?_) fun _ => .ite (fun _ => ?_) fun _ =>
      .ite (fun _ => .stay fun _ => .ite (fun _ => ?_) fun _ => .ite (fun _ => ?_)
        fun _ => .pure fun _ h => h) fun _ => .stay fun _ => .ite (fun _ => ?_) fun _ =>
          .ite (fun _ => ?_) fun _ => .stay fun _ => .ite (fun _ => typeArguments_ensures
            (fun _ _ he => ?_) ?_) fun _ => .pure fun _ h => h
    · exact .of_behind fun _ _ => .keep fun _ => .bind namedMember_ensures fun _ => ih
    · exact .of_behind fun _ _ => .bind indexedMember_ensures fun _ => ih
    · exact .of_behind fun _ _ => .keep fun _ => .bind namedMember_ensures fun _ => ih
    · exact .of_behind fun _ _ => .keep fun _ => .bind indexedMember_ensures fun _ => ih
    · exact .of_behind fun _ _ => .keep fun _ => .bind (.finish (by simp)) fun _ => ih
    · exact .of_behind fun _ he => .bind (taggedTemplate_ensures he) fun _ => ih
    · exact .bind (.finish_instantiation (by rw [he.span])) fun _ => ih
    · exact .pure fun _ h => h

theorem callee_covers : Covers cs (callee d) := by
  unfold callee
  exact .startHere fun _ => .bind primary_covers.ensures fun _ => .stay fun _ =>
    .bind (membersFrom_ensures _) fun _ => .stay fun _ => .pure fun _ h => h

instance argumentsInChain_keeps : Keeps cs (argumentsInChain d) := argumentsInChain_yields.keeps

theorem callsFrom_ensures (k : Nat) {e : Tree} {inChain : Bool} :
    Ensures cs (e.Ends n) (callsFrom d n k e inChain) fun r => r.1.Ends n := by
  induction k generalizing e inChain with
  | zero => exact .fail
  | succ k ih =>
    unfold callsFrom
    refine .stay fun _ => .bind (membersFrom_ensures _) fun r => .eat (fun m he => ?_) ?_
    · extract_lets inChain' behind
      have hbehind : ∀ given, Ensures cs (State.Behind n) (behind given) fun r => r.1.Ends n :=
        fun _ => .keep fun _ => .ite (fun _ => .keep fun _ => .bind (.finish (by simp)) fun _ => ih)
          fun _ => .ite (fun _ => .ite (fun _ => .bind (taggedTemplate_ensures he) fun _ => ih)
            fun _ => .fail) fun h => absurd rfl h
      exact .ite (fun _ => .keep hbehind) fun h => absurd rfl h
    · extract_lets inChain' behind
      have hbehind : Ensures cs (r.1.Ends n) (behind []) fun r => r.1.Ends n :=
        .stay fun _ => .ite (fun _ => .of_behind fun _ _ => .keep fun _ => .bind (.finish (by simp))
          fun _ => ih) fun _ => .ite (fun h => by simp at h) fun _ => .pure fun _ h => h
      exact .ite (fun h => by simp at h) fun _ => hbehind

theorem leftHand_covers : Covers cs (leftHand d) := by
  unfold leftHand
  exact .startHere fun _ => .bind primary_covers.ensures fun _ => .stay fun _ =>
    .bind (callsFrom_ensures _) fun _ => .ite (fun _ => .of_behind fun _ _ => .finish (by simp))
      fun _ => .pure fun _ h => h

instance leftHand_keeps : Keeps cs (leftHand d) := leftHand_yields.keeps

/-! ## Operators -/

theorem unary_covers : Covers cs (unary d) := by
  unfold unary
  refine .peekStart fun t => .ite (fun _ => .of_ahead ?_) fun _ => .ite (fun _ => .of_ahead ?_) fun _ =>
    .ite (fun _ => .stay fun _ => .ite (fun _ => ?_) fun _ => .stay fun _ => .ite (fun _ => .of_ahead ?_)
      fun _ => .fail) fun _ => .stay fun _ => .ite (fun _ => .of_ahead ?_) fun _ => ?_
  · exact .pass fun _ => .keep fun _ => .finish (by simp)
  · exact .pass fun _ => .keep fun _ => .keep fun _ => .finish (by simp)
  · exact (hd.covers _ rfl).ensures
  · exact .pass fun _ => .keep fun _ => .keep fun _ => .keep fun _ => .finish (by simp)
  · exact .keep fun _ => .keep fun _ => .pass fun _ => .keep fun _ => .finish (by simp)
  · exact .bind leftHand_covers.ensures fun _ => .stay fun _ => .ite (fun _ => .of_behind fun _ _ =>
      .keep fun _ => .keep fun _ => .finish (by simp)) fun _ => .pure fun _ h => h

instance unary_keeps : Keeps cs (unary d) := unary_yields.keeps

omit hd in
theorem operatorNode_ensures {operator : String} {l r : Tree} :
    Ensures cs (State.Behind n) (operatorNode operator n l r) (Tree.Ends n) := by
  unfold operatorNode
  refine .keep fun _ => .keep fun _ => ?_
  extract_lets shape
  refine .finish ?_
  unfold shape
  repeat' split
  all_goals simp

/-- An operator that is read again leaves the tree in front of it as it was. -/
theorem relexAngle_ensures {β : Type} {Q : β → State → Prop} {e : Tree}
    {f : Unit → P β} (hf : ∀ u, Ensures cs (e.Ends n) (f u) Q) :
    Ensures cs (e.Ends n) (do if ← isAt ">" then relex angle >>= f else f ()) Q := by
  intro s b s' hs he h
  rw [isAt_bind] at h
  split at h
  next his =>
    obtain ⟨u, s₁, h₁, h⟩ := exists_of_bind h
    have hs₁ := (relexAngle_yieldsIf hs (narrow_of_is hs his rfl) h₁).1
    obtain ⟨-, rfl⟩ := Prod.mk.inj (Option.some.inj h₁)
    exact hf u hs₁.stands he h
  next => exact hf () hs he h

theorem operatorsFrom_ensures {bound : Nat} (k : Nat) {l : Tree} :
    Ensures cs (l.Ends n) (operatorsFrom d bound n k l) (Tree.Ends n) := by
  induction k generalizing l with
  | zero => exact .fail
  | succ k ih =>
    unfold operatorsFrom
    refine relexAngle_ensures fun _ => .stay fun t => ?_
    cases t.precedence? with
    | none => exact .pure fun _ h => h
    | some p =>
      refine .ite (fun _ => .pure fun _ h => h) fun _ => .stay fun _ =>
        .ite (fun _ => .pure fun _ h => h) fun _ => .ite (fun _ => .ite (fun _ => .pure fun _ h => h)
          fun _ => .of_behind fun _ _ => ?_) fun _ => .of_behind fun _ _ => ?_
      · exact .keep fun _ => .keep fun _ => .keep fun _ => .keep fun _ =>
          .bind (.finish (by simp)) fun _ => ih
      · exact .keep fun _ => .keep fun _ => .bind operatorNode_ensures fun _ => ih

theorem operators_covers {bound : Nat} : Covers cs (operators d bound) := by
  unfold operators
  refine .peekStart fun t => .stay fun _ => .ite (fun _ => .of_ahead ?_) fun _ => ?_
  · refine .pass fun _ => .keep fun _ => .keep fun _ => ?_
    extract_lets behind
    have hbehind : ∀ u, Ensures cs (State.Behind t.start) (behind u) (Tree.Ends t.start) := fun _ =>
      .keep fun _ => .bind (.finish (by simp)) fun _ => operatorsFrom_ensures _
    exact .ite (fun _ => .keep hbehind) fun _ => hbehind ()
  · exact .bind unary_covers.ensures fun _ => .stay fun _ => operatorsFrom_ensures _

instance operators_keeps (bound : Nat) : Keeps cs (operators d bound) := operators_yields.keeps

/-! ## Functions and assignments -/

instance arrowBody_keeps (isAsync arrowType : Bool) : Keeps cs (arrowBody d isAsync arrowType) :=
  arrowBody_yields.keeps

theorem arrowFrom_ensures {head : ArrowHead} {arrowType : Bool} :
    Ensures cs (State.Behind n) (arrowFrom d n head arrowType) (Tree.Ends n) := by
  unfold arrowFrom
  exact .keep fun _ => .finish (by simp)

theorem simpleArrow_ensures {isAsync arrowType : Bool} {parameter : Tree} :
    Ensures cs (State.Behind n) (simpleArrow d n isAsync parameter arrowType) (Tree.Ends n) := by
  unfold simpleArrow
  exact .keep fun _ => .keep fun _ => .keep fun _ => arrowFrom_ensures

theorem arrowHead_ensures :
    Ensures cs (State.Ahead n) (arrowHead d) fun _ => State.Behind n := by
  unfold arrowHead
  exact .keep fun _ => .keep fun _ => .keep fun _ => .keep fun _ => .keep fun _ => .pass fun _ =>
    .pure fun _ h => h

/-- An arrow function with parentheses. An attempt that is given up goes back to where it started. -/
theorem parenthesizedArrow_ensures {arrowType : Bool} :
    Ensures cs (State.Here n) (parenthesizedArrow d arrowType)
      fun f? => f?.elim (State.Here n) (Tree.Ends n) := by
  unfold parenthesizedArrow
  refine .startHere (.stay fun guess => ?_)
  cases guess with
  | no => exact .pure fun _ h => h
  | yes =>
    exact .of_ahead (.bind arrowHead_ensures fun _ => .bind arrowFrom_ensures fun _ =>
      .pure fun _ h => h)
  | maybe =>
    intro s a s' hs hn h
    obtain ⟨before, s₁, h₁, h⟩ := exists_of_bind h
    obtain ⟨rfl, rfl⟩ := Prod.mk.inj (Option.some.inj h₁)
    obtain ⟨h?, s₂, h₂, h⟩ := exists_of_bind h
    obtain ⟨hs₂, hhead⟩ := attempt_ensures arrowHead_ensures.of_ahead hs hn h₂
    cases h? with
    | none =>
      obtain ⟨rfl, rfl⟩ := Prod.mk.inj (Option.some.inj h)
      exact ⟨hs₂, hhead⟩
    | some head =>
      obtain ⟨f, s₃, h₃, h⟩ := exists_of_bind h
      obtain ⟨hs₃, hf⟩ := arrowFrom_ensures hs₂ hhead h₃
      rw [isAt_bind] at h
      split at h
      · obtain ⟨rfl, rfl⟩ := Prod.mk.inj (Option.some.inj h)
        exact ⟨hs, hn⟩
      · obtain ⟨rfl, rfl⟩ := Prod.mk.inj (Option.some.inj h)
        exact ⟨hs₃, hf⟩

instance yieldExpression_keeps : Keeps cs (yieldExpression d) := yieldExpression_yields.keeps

theorem yieldExpression_covers : Covers cs (yieldExpression d) := by
  unfold yieldExpression
  exact .start fun _ => .pass fun _ => .keep fun _ => .ite (fun _ => .finish (by simp)) fun _ =>
    .keep fun _ => .keep fun _ => .ite (fun _ => .finish (by simp)) fun _ => .keep fun _ =>
      .finish (by simp)

theorem conditional_ensures {condition : Tree} {arrowType : Bool} :
    Ensures cs (condition.Ends n) (conditional d n condition arrowType) (Tree.Ends n) := by
  unfold conditional
  refine .eat (fun _ _ => .ite (fun _ => ?_) fun h => absurd rfl h) (.ite (fun h => by simp at h) fun _ =>
    .pure fun _ h => h)
  exact .keep fun _ => .keep fun _ => .keep fun _ => .finish (by simp)

theorem assignment_covers {arrowType : Bool} : Covers cs (assignment d arrowType) := by
  unfold assignment
  refine .startHere fun n => .stay fun _ => .stay fun _ => .ite (fun _ => ?_) fun _ =>
    .bind parenthesizedArrow_ensures fun f? => ?_
  · exact yieldExpression_covers.ensures
  cases f? with
  | some f => exact .pure fun _ h => h
  | none =>
    change Ensures cs (State.Here n) _ _
    refine .stay fun _ => .ite (fun _ => .of_ahead ?_) fun _ => .bind operators_covers.ensures
      fun l => .stay fun t => .ite (fun _ => .of_behind fun _ _ => simpleArrow_ensures) fun _ =>
        .ite (fun _ => .of_behind fun _ _ => ?_) fun _ => conditional_ensures
    · exact .pass fun _ => .keep fun _ => simpleArrow_ensures
    · extract_lets behind
      have hbehind : ∀ u, Ensures cs (State.Behind n) (behind u) (Tree.Ends n) := fun _ =>
        .keep fun _ => .keep fun _ => .finish (by simp)
      exact .ite (fun _ => .keep hbehind) fun _ => .keep hbehind

theorem expression_covers : Covers cs (expression d) := by
  unfold expression
  refine .startHere fun n => .bind (within_covers (hd.covers _ rfl)).ensures fun _ => .stay fun _ =>
    .ite (fun _ => .of_behind fun _ _ => ?_) fun _ => .pure fun _ h => h
  exact .keep fun _ => .finish (by simp)

/-! ## Markup -/

omit hd in
instance elementName_keeps : Keeps cs elementName := elementName_yields.keeps

instance markupContent_keeps : Keeps cs (markupContent d) := markupContent_yields.keeps

instance markupAttribute_keeps : Keeps cs (markupAttribute d) := markupAttribute_yields.keeps

theorem markup_covers {inside : Bool} : Covers cs (markup d inside) := by
  unfold markup
  refine .start fun n => .pass fun _ => .keep fun _ => .ite (fun _ => ?_) fun _ => ?_
  · exact .keep fun _ => .keep fun _ => .keep fun _ => .keep fun _ => .keep fun _ =>
      .finish (by simp)
  · refine .keep fun _ => .keep fun _ => .keep fun _ => .keep fun _ => .ite (fun _ => ?_) fun _ => ?_
    · exact .keep fun _ => .finish (by simp)
    · exact .keep fun _ => .keep fun _ => .keep fun _ => .keep fun _ => .keep fun _ =>
        .keep fun _ => .keep fun _ => .finish (by simp)

end Parser

end BaselineAudit.Script
