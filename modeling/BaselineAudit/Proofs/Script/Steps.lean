import BaselineAudit.Proofs.Script.Layout
import BaselineAudit.Script.Parser.Basic

/-!
# What parsers keep

A parser goes from a state whose token stands in the text to another such state further on, and what it
gives is built from places that it has seen.

* `Tree.Sited`: every node of a tree starts in the text; names and members start in front of its end,
  and text in markup stands there as it is. What stands behind a tag is a template, and templates are laid
  out as they should be.
* `Yields`: a parser keeps the token in the text and does not go back, and its result has a property.
  `YieldsIf` is the same for states with a property.
* `Keeps`: the same without a property. Most steps of a parser are of this kind and are left to the
  instances. `Stays` is for those that take no token.
* `Covers`: the tree that a parser gives reaches from the current token up to the last one that it took.
* `Descends`: the parsers of all goals yield sited trees, and those of expressions cover what they took.
-/

namespace BaselineAudit.Script

open Lexer

/-! ## Trees -/

/-- A node with a shape and children can start at an offset. There is more to a template. -/
def Shape.Fits (cs : List Char) (start : Nat) (children : List Tree) : Shape → Prop
  | .reference _ | .member _ => start < byteCount cs
  | .text value => ∃ back, Leaves start cs (value.toList ++ back)
  | .tagged => ∀ text, children.getLast? = some text → ∃ pieces, text.shape = .template pieces
  | .template _ => False
  | _ => True

/-- A node with a shape and children can stand in a part of the text. What a template is depends on where
it ends, too. -/
def Shape.Stands (cs : List Char) (span : Span) (children : List Tree) : Shape → Prop
  | .template pieces =>
    ∃ ranges, Laid cs (span.start + 1) pieces (children.map Tree.span) ranges span.stop
  | shape => shape.Fits cs span.start children

theorem Shape.Fits.stands {cs : List Char} {start : Nat} {children : List Tree} {shape : Shape}
    (h : shape.Fits cs start children) (stop : Nat) : shape.Stands cs ⟨start, stop⟩ children := by
  cases shape with
  | template => exact h.elim
  | _ => exact h

namespace Tree

mutual

/-- The nodes of a tree stand in a text. -/
def Sited (cs : List Char) : Tree → Prop
  | node shape span children => span.start ≤ byteCount cs ∧ shape.Stands cs span children ∧
      SitedAll cs children

/-- The nodes of trees stand in a text. -/
def SitedAll (cs : List Char) : List Tree → Prop
  | [] => True
  | t :: rest => Sited cs t ∧ SitedAll cs rest

end

variable {cs : List Char}

@[simp] theorem sitedAll_nil : SitedAll cs [] := by
  rw [SitedAll]
  trivial

@[simp] theorem sitedAll_cons {t : Tree} {ts : List Tree} :
    SitedAll cs (t :: ts) ↔ t.Sited cs ∧ SitedAll cs ts := by
  rw [SitedAll]

@[simp] theorem sitedAll_append {ts us : List Tree} :
    SitedAll cs (ts ++ us) ↔ SitedAll cs ts ∧ SitedAll cs us := by
  induction ts with
  | nil => simp
  | cons t ts ih => simp [ih, and_assoc]

theorem sitedAll_iff {ts : List Tree} : SitedAll cs ts ↔ ∀ t ∈ ts, t.Sited cs := by
  induction ts with
  | nil => simp
  | cons t ts ih => simp [ih]

theorem sited_node {shape : Shape} {span : Span} {children : List Tree} :
    Sited cs (node shape span children) ↔
      span.start ≤ byteCount cs ∧ shape.Stands cs span children ∧ SitedAll cs children := by
  rw [Sited]

theorem Sited.laid {t : Tree} {pieces : List Piece} (h : t.Sited cs)
    (hshape : t.shape = .template pieces) :
    ∃ ranges, Laid cs (t.span.start + 1) pieces (t.children.map Tree.span) ranges t.span.stop := by
  cases t with
  | node shape span children =>
    obtain rfl : shape = .template pieces := hshape
    exact (sited_node.mp h).2.1

theorem Sited.start_le {t : Tree} (h : t.Sited cs) : t.span.start ≤ byteCount cs := by
  cases t
  exact (sited_node.mp h).1

theorem Sited.children {t : Tree} (h : t.Sited cs) : SitedAll cs t.children := by
  cases t
  exact (sited_node.mp h).2.2

end Tree

/-! ## Parsers -/

/-- The current token stands in a text, and only blanks and comments stand between it and the one before,
if there is one. -/
structure State.At (cs : List Char) (s : State) : Prop where
  token : s.token.At cs s.here s.rest
  before_le : s.before ≤ s.token.start
  padded : s.before ≠ 0 → s.here ≠ [] → Padded cs s.before s.token.start

/-- A state that stands in a text is further on than another one. -/
structure State.Goes (cs : List Char) (s s' : State) : Prop where
  stands : s'.At cs
  before_le : s.before ≤ s'.before
  start_le : s.token.start ≤ s'.token.start

namespace State.Goes

variable {cs : List Char} {s s' s'' : State}

theorem refl (h : s.At cs) : s.Goes cs s := ⟨h, Nat.le_refl _, Nat.le_refl _⟩

theorem trans (h : s.Goes cs s') (h' : s'.Goes cs s'') : s.Goes cs s'' :=
  ⟨h'.stands, Nat.le_trans h.before_le h'.before_le, Nat.le_trans h.start_le h'.start_le⟩

end State.Goes

/-- Two states are at the same place. -/
structure State.Same (s s' : State) : Prop where
  token : s'.token = s.token
  here : s'.here = s.here
  rest : s'.rest = s.rest
  before : s'.before = s.before

namespace State.Same

variable {cs : List Char} {s s' s'' : State}

theorem refl (s : State) : s.Same s := ⟨rfl, rfl, rfl, rfl⟩

theorem trans (h : s.Same s') (h' : s'.Same s'') : s.Same s'' :=
  ⟨h'.token.trans h.token, h'.here.trans h.here, h'.rest.trans h.rest, h'.before.trans h.before⟩

theorem goes (h : s.Same s') (hs : s.At cs) : s.Goes cs s' := by
  refine ⟨⟨?_, ?_, ?_⟩, Nat.le_of_eq h.before.symm, Nat.le_of_eq (h.token ▸ rfl)⟩
  · rw [h.token, h.here, h.rest]
    exact hs.token
  · rw [h.token, h.before]
    exact hs.before_le
  · rw [h.token, h.here, h.before]
    exact hs.padded

end State.Same

/-- A parser keeps the token in the text and does not go back, and what it gives has a property. -/
def Yields (cs : List Char) {α : Type} (p : P α) (Q : α → Prop) : Prop :=
  ∀ ⦃s a s'⦄, s.At cs → p s = some (a, s') → s.Goes cs s' ∧ Q a

/-- A parser keeps the token in the text and does not go back. -/
class Keeps (cs : List Char) {α : Type} (p : P α) : Prop where
  yields : Yields cs p fun _ => True

/-- A parser stays where it is. -/
class Stays {α : Type} (p : P α) : Prop where
  same : ∀ ⦃s a s'⦄, p s = some (a, s') → s.Same s'

section

variable {cs : List Char} {α β : Type} {p q : P α} {Q R : α → Prop}

theorem exists_of_bind {f : α → P β} {s s' : State} {b : β} (h : (p >>= f) s = some (b, s')) :
    ∃ a s₁, p s = some (a, s₁) ∧ f a s₁ = some (b, s') := by
  obtain ⟨⟨a, s₁⟩, h₁, h₂⟩ := Option.bind_eq_some_iff.mp h
  exact ⟨a, s₁, h₁, h₂⟩

theorem bind_eq_none {f : α → P β} {s : State} (h : p s = none) : (p >>= f) s = none := by
  cases hp : (p >>= f) s with
  | none => rfl
  | some r =>
    obtain ⟨b, s'⟩ := r
    obtain ⟨a, s₁, h₁, -⟩ := exists_of_bind hp
    exact absurd (h.symm.trans h₁) (by simp)

namespace Yields

theorem keeps (h : Yields cs p Q) : Keeps cs p := ⟨fun _ _ _ hs hp => ⟨(h hs hp).1, trivial⟩⟩

theorem imp (h : Yields cs p Q) (hQ : ∀ a, Q a → R a) : Yields cs p R :=
  fun _ _ _ hs hp => ⟨(h hs hp).1, hQ _ (h hs hp).2⟩

theorem pure {a : α} (h : Q a) : Yields cs (pure a) Q := by
  intro s b s' hs hp
  obtain ⟨rfl, rfl⟩ := Prod.mk.inj (Option.some.inj hp)
  exact ⟨.refl hs, h⟩

theorem fail : Yields cs (Parser.fail : P α) Q := fun _ _ _ _ hp => absurd hp (by simp [Parser.fail])

/-- One parser after the other. -/
theorem bind {f : α → P β} {S : β → Prop} (hp : Yields cs p R) (hf : ∀ a, R a → Yields cs (f a) S) :
    Yields cs (p >>= f) S := by
  intro s b s' hs h
  obtain ⟨a, s₁, h₁, h₂⟩ := exists_of_bind h
  obtain ⟨hs₁, ha⟩ := hp hs h₁
  obtain ⟨hs', hb⟩ := hf a ha hs₁.stands h₂
  exact ⟨hs₁.trans hs', hb⟩

/-- One parser after another whose result does not matter. -/
theorem skip {f : α → P β} {S : β → Prop} [hp : Keeps cs p] (hf : ∀ a, Yields cs (f a) S) :
    Yields cs (p >>= f) S := hp.yields.bind fun a _ => hf a

theorem ite {c : Prop} [Decidable c] (hp : c → Yields cs p Q) (hq : ¬c → Yields cs q Q) :
    Yields cs (if c then p else q) Q := by
  split
  · exact hp ‹_›
  · exact hq ‹_›

/-- A step that is taken only in some cases. -/
theorem when {c : Prop} [Decidable c] {k : P β} {S : β → Prop} [hp : Keeps cs p]
    (hk : Yields cs k S) : Yields cs (if c then p >>= fun _ => k else k) S :=
  .ite (fun _ => .skip fun _ => hk) fun _ => hk

/-- No trees. -/
theorem nil : Yields cs (Pure.pure [] : P (List Tree)) (Tree.SitedAll cs) := .pure Tree.sitedAll_nil

/-- A tree as a list. -/
theorem single {p : P Tree} (hp : Yields cs p (Tree.Sited cs)) :
    Yields cs (do Pure.pure [← p]) (Tree.SitedAll cs) :=
  hp.bind fun _ ht => .pure (by simp [ht])

end Yields

namespace Keeps

instance pure (a : α) : Keeps cs (Pure.pure a : P α) := ⟨.pure trivial⟩

instance fail : Keeps cs (Parser.fail : P α) := ⟨.fail⟩

instance bind {f : α → P β} [hp : Keeps cs p] [hf : ∀ a, Keeps cs (f a)] : Keeps cs (p >>= f) :=
  ⟨.skip fun a => (hf a).yields⟩

instance ite {c : Prop} [Decidable c] [hp : Keeps cs p] [hq : Keeps cs q] :
    Keeps cs (if c then p else q) := ⟨.ite (fun _ => hp.yields) fun _ => hq.yields⟩

instance (priority := high) when {c : Prop} [Decidable c] {k : P β} [hp : Keeps cs p]
    [hk : Keeps cs k] : Keeps cs (if c then p >>= fun _ => k else k) := ⟨.when hk.yields⟩

instance (priority := low) of_stays [h : Stays p] : Keeps cs p :=
  ⟨fun _ _ _ hs hp => ⟨(h.same hp).goes hs, trivial⟩⟩

end Keeps

namespace Stays

instance pure (a : α) : Stays (Pure.pure a : P α) := by
  refine ⟨fun s b s' h => ?_⟩
  obtain ⟨-, rfl⟩ := Prod.mk.inj (Option.some.inj h)
  exact .refl s

instance bind {f : α → P β} [hp : Stays p] [hf : ∀ a, Stays (f a)] : Stays (p >>= f) := by
  refine ⟨fun s b s' h => ?_⟩
  obtain ⟨a, s₁, h₁, h₂⟩ := exists_of_bind h
  exact (hp.same h₁).trans ((hf a).same h₂)

instance ite {c : Prop} [Decidable c] [hp : Stays p] [hq : Stays q] : Stays (if c then p else q) := by
  split
  · exact hp
  · exact hq

/-- A change that has nothing to do with the place in the text. -/
theorem modify {f : State → State} (hf : ∀ s : State, s.Same (f s)) : Stays (modify f : P PUnit) := by
  refine ⟨fun s a s' h => ?_⟩
  obtain ⟨-, rfl⟩ := Prod.mk.inj (Option.some.inj h)
  exact hf s

end Stays

end

/-- A tree reaches from one place to another. If it is a value with type arguments, the value starts at the
same place. -/
structure Tree.Reaches (start stop : Nat) (t : Tree) : Prop where
  span : t.span = ⟨start, stop⟩
  le : start ≤ stop
  inner : ∀ e types, t.shape = .instantiation → t.children = e :: types → e.span.start = start

/-- The tree that a parser gives reaches from the current token up to the last one that it took. -/
def Covers (cs : List Char) (p : P Tree) : Prop :=
  ∀ ⦃s t s'⦄, s.At cs → p s = some (t, s') → t.Reaches s.token.start s'.before

/-- The goals that are expressions. -/
def Goal.isExpression : Goal → Bool
  | .expression | .assignment _ | .operators _ | .unary | .leftHand | .callee | .markup _ => true
  | _ => false

/-- The parsers of all goals yield sited trees, and those of expressions cover what they took. -/
class Descends (cs : List Char) (d : Descent) : Prop where
  yields : ∀ goal, Yields cs (d goal) (Tree.Sited cs)
  covers : ∀ goal, goal.isExpression = true → Covers cs (d goal)

instance Descends.keeps {cs : List Char} {d : Descent} [h : Descends cs d] (goal : Goal) :
    Keeps cs (d goal) := (h.yields goal).keeps

/-! ## Steps -/

namespace Parser

variable {cs : List Char} {α : Type}

theorem get_yields : Yields cs (get : P State) (State.At cs) := by
  intro s a s' hs h
  obtain ⟨rfl, rfl⟩ := Prod.mk.inj (Option.some.inj h)
  exact ⟨.refl hs, hs⟩

/-- Going on to the next token. -/
theorem advanceBy_goes {s s' : State} {read : Cursor → Lexed} {u : Unit} (hs : s.At cs)
    (hread : (read ⟨s.token.stop, s.rest⟩).Behind cs ⟨s.token.stop, s.rest⟩)
    (h : advanceBy read s = some (u, s')) : s.Goes cs s' ∧ s'.before = s.token.stop := by
  obtain ⟨-, rfl⟩ := Prod.mk.inj (Option.some.inj h)
  refine ⟨⟨⟨hread.stands, hread.le, fun _ => hread.padded⟩, ?_, ?_⟩, rfl⟩
  · exact Nat.le_trans hs.before_le hs.token.le
  · exact Nat.le_trans hs.token.le hread.le

theorem advanceBy_keeps {read : Cursor → Lexed}
    (hread : ∀ p, Leaves p.offset cs p.rest → (read p).Behind cs p) : Keeps cs (advanceBy read) :=
  ⟨fun _ _ _ hs h => ⟨(advanceBy_goes hs (hread _ hs.token.stop) h).1, trivial⟩⟩

/-- Going on to the next token, where no parser goes on at a token that is none. -/
theorem advanceBy_yields {read : Cursor → Lexed} {p : P α} {Q : α → Prop}
    (hread : ∀ c, Leaves c.offset cs c.rest → (read c).token.kind ≠ .unknown → (read c).Behind cs c)
    (hunknown : ∀ s, s.token.kind = .unknown → p s = none) (hp : Yields cs p Q) :
    Yields cs (do advanceBy read; p) Q := by
  intro s a s' hs h
  obtain ⟨u, s₁, h₁, h₂⟩ := exists_of_bind h
  by_cases hk : (read ⟨s.token.stop, s.rest⟩).token.kind = .unknown
  · obtain ⟨-, rfl⟩ := Prod.mk.inj (Option.some.inj h₁)
    exact absurd ((hunknown _ hk).symm.trans h₂) (by simp)
  · obtain ⟨hs₁, -⟩ := advanceBy_goes hs (hread _ hs.token.stop hk) h₁
    obtain ⟨hs', ha⟩ := hp hs₁.stands h₂
    exact ⟨hs₁.trans hs', ha⟩

/-- A token starts in the text, and in front of its end unless it is the last one. -/
structure Seen (cs : List Char) (t : Token) : Prop where
  start_le : t.start ≤ byteCount cs
  start_lt : t.kind ≠ .done → t.start < byteCount cs
  text : t.kind = .text → ∃ back, Leaves t.start cs (t.text.toList ++ back)

theorem seen_of_at {t : Token} {here rest : List Char} (h : t.At cs here rest) : Seen cs t :=
  ⟨h.start_le, h.start_lt, fun hk => ⟨rest, h.text hk ▸ h.start⟩⟩

theorem peek_yields : Yields cs peek (Seen cs) :=
  get_yields.bind fun _ hs => .pure (seen_of_at hs.token)

theorem peek_bind {f : Token → P α} (s : State) : (peek >>= f) s = f s.token s := rfl

theorem isAt_bind {text : String} {f : Bool → P α} (s : State) :
    (isAt text >>= f) s = f (s.token.is text) s := rfl

theorem startHere_yields : Yields cs startHere (· ≤ byteCount cs) :=
  peek_yields.bind fun _ ht => .pure ht.start_le

/-- Nothing starts at the end of the text, so what goes on starts in front of it. -/
theorem startHere_bind {f : Nat → P α} {Q : α → Prop}
    (hdone : ∀ n s, s.token.kind = .done → f n s = none)
    (hf : ∀ start < byteCount cs, Yields cs (f start) Q) : Yields cs (startHere >>= f) Q := by
  intro s a s' hs h
  change f s.token.start s = some (a, s') at h
  refine hf _ (hs.token.start_lt fun hk => ?_) hs h
  rw [hdone _ s hk] at h
  cases h

/-- A node with sited children. -/
theorem finish_yields {shape : Shape} {start : Nat} {children : List Tree}
    (hstart : start ≤ byteCount cs) (hshape : shape.Fits cs start children)
    (hchildren : Tree.SitedAll cs children) :
    Yields cs (finish shape start children) (Tree.Sited cs) :=
  get_yields.bind fun _ _ => .pure (Tree.sited_node.mpr ⟨hstart, hshape.stands _, hchildren⟩)

instance get_stays : Stays (get : P State) := by
  refine ⟨fun s a s' h => ?_⟩
  obtain ⟨-, rfl⟩ := Prod.mk.inj (Option.some.inj h)
  exact .refl s

instance peek_stays : Stays peek := by unfold peek; infer_instance

instance startHere_stays : Stays startHere := by unfold startHere; infer_instance

instance flaw_stays : Stays flaw := .modify fun _ => ⟨rfl, rfl, rfl, rfl⟩

instance flawIf_stays (b : Bool) : Stays (flawIf b) := by unfold flawIf; infer_instance

instance context_stays : Stays context := by unfold context; infer_instance

instance typed_stays : Stays typed := by unfold typed; infer_instance

instance hasMarkup_stays : Stays hasMarkup := by unfold hasMarkup; infer_instance

instance isAt_stays (text : String) : Stays (isAt text) := by unfold isAt; infer_instance

instance atOneOf_stays (texts : List String) : Stays (atOneOf texts) := by
  unfold atOneOf; infer_instance

instance atEnd_stays : Stays atEnd := by unfold atEnd; infer_instance

instance peekNext_stays : Stays peekNext := by unfold peekNext; infer_instance

instance fuel_stays : Stays fuel := by unfold fuel; infer_instance

instance finish_stays (shape : Shape) (start : Nat) (children : List Tree) :
    Stays (finish shape start children) := by unfold finish; infer_instance

instance checkKeyword_stays : Stays checkKeyword := by unfold checkKeyword; infer_instance

instance atStatementEnd_stays : Stays atStatementEnd := by unfold atStatementEnd; infer_instance

instance checkName_stays (t : Token) (c : Context) : Stays (checkName t c) := by
  unfold checkName; infer_instance

/-- Looking ahead goes nowhere. -/
instance ahead_stays (p : P α) : Stays (ahead p) := by
  refine ⟨fun s a s' h => ?_⟩
  unfold ahead at h
  split at h <;>
  · obtain ⟨-, rfl⟩ := Prod.mk.inj (Option.some.inj h)
    exact .refl s

instance looks_stays (p : P Bool) : Stays (looks p) := by unfold looks; infer_instance

instance advance_keeps : Keeps cs advance := advanceBy_keeps fun _ => next_behind

instance bump_keeps : Keeps cs bump := by unfold bump; infer_instance

theorem bump_before {s s' : State} {u : Unit} (hs : s.At cs) (h : bump s = some (u, s')) :
    s'.before = s.token.stop := by
  obtain ⟨v, s₁, h₁, h₂⟩ := exists_of_bind h
  have hsame := checkKeyword_stays.same h₁
  have hs₁ := (hsame.goes hs).stands
  rw [← hsame.token]
  exact (advanceBy_goes hs₁ (next_behind hs₁.token.stop) h₂).2

instance bumpName_keeps : Keeps cs bumpName := advance_keeps

instance bumpToContent_keeps : Keeps cs bumpToContent := by
  have h : Keeps cs (advanceBy content) := advanceBy_keeps fun _ => content_behind
  unfold bumpToContent
  infer_instance

instance eat_keeps (text : String) : Keeps cs (eat text) := by unfold eat; infer_instance

instance expect_keeps (text : String) : Keeps cs (expect text) := by unfold expect; infer_instance

instance semicolon_keeps : Keeps cs semicolon := by unfold semicolon; infer_instance

/-- An attempt yields what the parser does, if it succeeds. -/
theorem attempt_yields {p : P α} {Q : α → Prop} (hp : Yields cs p Q) :
    Yields cs (attempt p) fun a? => ∀ a, a? = some a → Q a := by
  intro s a? s' hs h
  unfold attempt at h
  split at h
  next a s₁ ha =>
    obtain ⟨rfl, rfl⟩ := Prod.mk.inj (Option.some.inj h)
    exact ⟨(hp hs ha).1, fun b hb => Option.some.inj hb ▸ (hp hs ha).2⟩
  next =>
    obtain ⟨rfl, rfl⟩ := Prod.mk.inj (Option.some.inj h)
    exact ⟨.refl hs, fun b hb => absurd hb (by simp)⟩

instance attempt_keeps (p : P α) [hp : Keeps cs p] : Keeps cs (attempt p) :=
  (attempt_yields hp.yields).keeps

theorem within_yields {change : Context → Context} {p : P α} {Q : α → Prop} (hp : Yields cs p Q) :
    Yields cs (within change p) Q := by
  have hcontext : ∀ c, Stays (modify fun s => { s with context := c } : P PUnit) :=
    fun _ => .modify fun _ => ⟨rfl, rfl, rfl, rfl⟩
  unfold within
  exact .skip fun _ => .skip fun _ => hp.bind fun _ ha => .skip fun _ => .pure ha

theorem within_covers {change : Context → Context} {p : P Tree} (hp : Covers cs p) :
    Covers cs (within change p) := by
  intro s t s' hs h
  obtain ⟨c, s₁, h₁, h⟩ := exists_of_bind h
  obtain ⟨-, rfl⟩ := Prod.mk.inj (Option.some.inj h₁)
  obtain ⟨u, s₂, h₂, h⟩ := exists_of_bind h
  obtain ⟨-, rfl⟩ := Prod.mk.inj (Option.some.inj h₂)
  obtain ⟨a, s₃, h₃, h⟩ := exists_of_bind h
  obtain ⟨rfl, rfl⟩ := Prod.mk.inj (Option.some.inj h)
  have hat : State.At cs { s with context := change c } := ⟨hs.token, hs.before_le, hs.padded⟩
  have hreaches := hp hat h₃
  exact hreaches

instance within_keeps (change : Context → Context) (p : P α) [hp : Keeps cs p] :
    Keeps cs (within change p) := (within_yields hp.yields).keeps

theorem allowingIn_yields {p : P α} {Q : α → Prop} (hp : Yields cs p Q) :
    Yields cs (allowingIn p) Q := within_yields hp

/-! ## Reading a token again -/

/-- What a parser yields in states with a property. -/
def YieldsIf (cs : List Char) (H : State → Prop) (p : P α) (Q : α → Prop) : Prop :=
  ∀ ⦃s a s'⦄, s.At cs → H s → p s = some (a, s') → s.Goes cs s' ∧ Q a

/-- The token is a word or punctuator that starts with a character of one byte, so it can be read in
another way. -/
def Narrow (s : State) : Prop :=
  (∃ c tail, s.here = c :: tail ∧ c.utf8Size = 1) ∧ (s.token.kind = .word ∨ s.token.kind = .punct)

section

variable {β : Type} {S : β → Prop}

theorem YieldsIf.of_yields {H : State → Prop} {p : P α} {Q : α → Prop} (hp : Yields cs p Q) :
    YieldsIf cs H p Q := fun _ _ _ hs _ h => hp hs h

theorem YieldsIf.mono {H H' : State → Prop} {p : P α} {Q : α → Prop} (hH : ∀ s, H s → H' s)
    (hp : YieldsIf cs H' p Q) : YieldsIf cs H p Q := fun s _ _ hs h => hp hs (hH s h)

theorem YieldsIf.bind {H : State → Prop} {p : P α} {f : α → P β}
    (hp : YieldsIf cs H p fun _ => True) (hf : ∀ a, Yields cs (f a) S) :
    YieldsIf cs H (p >>= f) S := by
  intro s b s' hs hH h
  obtain ⟨a, s₁, h₁, h₂⟩ := exists_of_bind h
  obtain ⟨hs₁, -⟩ := hp hs hH h₁
  obtain ⟨hs', hb⟩ := hf a hs₁.stands h₂
  exact ⟨hs₁.trans hs', hb⟩

/-- What goes on behind a look at the token may use which one it is. -/
theorem peek_yieldsIf {f : Token → P β}
    (hf : ∀ t, Seen cs t → YieldsIf cs (fun s => s.token = t) (f t) S) :
    Yields cs (peek >>= f) S := fun s _ _ hs h => hf s.token (seen_of_at hs.token) hs rfl h

theorem get_yieldsIf {f : State → P β} (hf : ∀ s, s.At cs → YieldsIf cs (· = s) (f s) S) :
    Yields cs (get >>= f) S := fun s _ _ hs h => hf s hs hs rfl h

/-- A token whose text has a narrow character in front is narrow. -/
theorem narrow_of_is {s : State} {text : String} (hs : s.At cs) (his : s.token.is text = true)
    (htext : text.toList.head?.all (·.utf8Size == 1) = true) : Narrow s := by
  refine ⟨head_of_is hs.token his fun c hc => by simpa [hc] using htext, ?_⟩
  simp only [Token.is, Bool.and_eq_true, Bool.or_eq_true, beq_iff_eq] at his
  exact his.1

theorem isAt_yields {text : String} {f : Bool → P β}
    (htext : text.toList.head?.all (·.utf8Size == 1) = true) (hyes : YieldsIf cs Narrow (f true) S)
    (hno : Yields cs (f false) S) : Yields cs (isAt text >>= f) S := by
  intro s b s' hs h
  change f (s.token.is text) s = some (b, s') at h
  cases his : s.token.is text with
  | false => exact hno hs (his ▸ h)
  | true => exact hyes hs (narrow_of_is hs his htext) (his ▸ h)

theorem isAt_yieldsIf {H : State → Prop} {text : String} {f : Bool → P β}
    (hf : ∀ b, YieldsIf cs H (f b) S) : YieldsIf cs H (isAt text >>= f) S :=
  fun _ _ _ hs hH h => hf _ hs hH h

/-- The token is read again from its start on. -/
theorem put_yieldsIf {l : Lexed} (hl : l.token.At cs l.here l.rest) :
    YieldsIf cs (fun s => s.token.start = l.token.start) (put l) fun _ => True := by
  intro s a s' hs hstart h
  obtain ⟨-, rfl⟩ := Prod.mk.inj (Option.some.inj h)
  refine ⟨⟨⟨hl, ?_, fun hbefore hne => ?_⟩, Nat.le_refl _, Nat.le_of_eq hstart⟩, trivial⟩
  · exact hstart ▸ hs.before_le
  · show Padded cs s.before l.token.start
    have hlt := hl.start.lt hne
    rw [← hstart] at hlt ⊢
    exact hs.padded hbefore (hs.token.here_ne_nil hlt)

theorem relexTail_yieldsIf : YieldsIf cs Narrow (relex templateTail) fun _ => True := by
  intro s _ _ hs hnarrow h
  obtain ⟨c, tail, hhere, -⟩ := hnarrow.1
  exact put_yieldsIf (templateTail_at hs.token (by simp [hhere])) hs (templateTail_start _ _).symm h

theorem relexSingle_yieldsIf : YieldsIf cs Narrow (relex single) fun _ => True :=
  fun _ _ _ hs hnarrow h => put_yieldsIf (single_at hs.token hnarrow.1 hnarrow.2) hs rfl h

theorem relexAngle_yieldsIf : YieldsIf cs Narrow (relex angle) fun _ => True :=
  fun _ _ _ hs hnarrow h => put_yieldsIf (angle_at hs.token hnarrow.1 hnarrow.2) hs rfl h

/-- An operator that is read again is still narrow. -/
theorem relexAngle_bind {f : Unit → P β} (hf : YieldsIf cs Narrow (f ()) S) :
    YieldsIf cs Narrow (relex angle >>= f) S := by
  intro s b s' hs hnarrow h
  obtain ⟨u, s₁, h₁, h₂⟩ := exists_of_bind h
  have hs₁ := (relexAngle_yieldsIf hs hnarrow h₁).1
  obtain ⟨-, rfl⟩ := Prod.mk.inj (Option.some.inj h₁)
  obtain ⟨hs', hb⟩ := hf hs₁.stands hnarrow h₂
  exact ⟨hs₁.trans hs', hb⟩

end

/-! ## Lists -/

section

variable {more : P Bool} [Keeps cs more] {R : List Tree → Prop}

theorem manyFrom_yields {item : P (List Tree)} (hnil : R [])
    (happend : ∀ ts us, R ts → R us → R (ts ++ us)) (hitem : Yields cs item R) (n : Nat) :
    Yields cs (manyFrom more item n) R := by
  induction n with
  | zero => exact .fail
  | succ n ih =>
    unfold manyFrom
    exact .skip fun _ => .ite (fun _ => hitem.bind fun _ hfirst => ih.bind fun _ hrest =>
      .pure (happend _ _ hfirst hrest)) fun _ => .pure hnil

/-- Items of which each yields sited trees. -/
theorem many_yields {item : P (List Tree)} (hitem : Yields cs item (Tree.SitedAll cs)) :
    Yields cs (many more item) (Tree.SitedAll cs) :=
  .skip fun n => manyFrom_yields Tree.sitedAll_nil
    (fun _ _ hts hus => Tree.sitedAll_append.mpr ⟨hts, hus⟩) hitem n

instance many_keeps (item : P (List Tree)) [hitem : Keeps cs item] : Keeps cs (many more item) :=
  Yields.keeps (.skip fun n => manyFrom_yields trivial (fun _ _ _ _ => trivial) hitem.yields n)

end

theorem upTo_yields {close : String} {item : P Tree} (hitem : Yields cs item (Tree.Sited cs)) :
    Yields cs (upTo close item) (Tree.SitedAll cs) := by
  unfold upTo
  exact many_yields (.single hitem)

instance upTo_keeps (close : String) (item : P Tree) [Keeps cs item] : Keeps cs (upTo close item) := by
  unfold upTo; infer_instance

section

variable {close : String} {item : P Tree} {Q : Tree → Prop} {R : List Tree → Prop}

theorem commas_yields_of (hnil : R []) (hcons : ∀ t ts, Q t → R ts → R (t :: ts))
    (hitem : Yields cs item Q) : Yields cs (commas close item) fun r => R r.1 := by
  have hfrom : ∀ n, Yields cs (commasFrom close item n) fun r => R r.1 := by
    intro n
    induction n with
    | zero => exact .fail
    | succ n ih =>
      unfold commasFrom
      refine hitem.bind fun _ hfirst => .skip fun _ => .ite (fun _ => .pure (hcons _ _ hfirst hnil))
        fun _ => .skip fun _ => .skip fun _ => .ite (fun _ => .pure (hcons _ _ hfirst hnil)) fun _ => ?_
      exact ih.bind fun _ hrest => .pure (hcons _ _ hfirst hrest)
  unfold commas
  exact .skip fun _ => .skip fun _ => .ite (fun _ => .pure hnil) fun _ => .skip hfrom

theorem commas_yields (hitem : Yields cs item (Tree.Sited cs)) :
    Yields cs (commas close item) fun r => Tree.SitedAll cs r.1 :=
  commas_yields_of Tree.sitedAll_nil (fun _ _ ht hts => Tree.sitedAll_cons.mpr ⟨ht, hts⟩) hitem

instance commas_keeps [hitem : Keeps cs item] : Keeps cs (commas close item) :=
  (commas_yields_of (R := fun _ => True) trivial (fun _ _ _ _ => trivial) hitem.yields).keeps

theorem between_yields {opening : String} (hitem : Yields cs item (Tree.Sited cs)) :
    Yields cs (between opening close item) fun r => Tree.SitedAll cs r.1 := by
  unfold between
  exact .skip fun _ => (commas_yields hitem).bind fun _ hr => .skip fun _ => .pure hr

end

/-! ## Names -/

theorem Seen.lt_of_isName {t : Token} (h : Seen cs t) (hname : t.isName = true) :
    t.start < byteCount cs := by
  refine h.start_lt fun hk => ?_
  simp [Token.isName, hk] at hname

theorem bindingName_yields : Yields cs bindingName (Tree.Sited cs) := by
  unfold bindingName
  exact peek_yields.bind fun t ht => .ite (fun _ => .skip fun _ => .skip fun _ => .skip fun _ =>
    finish_yields ht.start_le trivial (by simp)) fun _ => .fail

theorem referenceName_yields : Yields cs referenceName (Tree.Sited cs) := by
  unfold referenceName
  exact peek_yields.bind fun t ht => .ite (fun hname => .skip fun _ => .skip fun _ => .skip fun _ =>
    finish_yields ht.start_le (ht.lt_of_isName hname) (by simp)) fun _ => .fail

instance bindingName_keeps : Keeps cs bindingName := bindingName_yields.keeps

instance referenceName_keeps : Keeps cs referenceName := referenceName_yields.keeps

instance anyWord_keeps : Keeps cs anyWord := by unfold anyWord; infer_instance

instance stringLiteral_keeps : Keeps cs stringLiteral := by unfold stringLiteral; infer_instance

section

variable {d : Descent} [hd : Descends cs d]

theorem typeBehind_yields {mark : String} : Yields cs (typeBehind d mark) (Tree.SitedAll cs) := by
  unfold typeBehind
  exact .skip fun _ => .ite (fun _ => .single (hd.yields _)) fun _ => .nil

theorem ascribedType_yields : Yields cs (ascribedType d) (Tree.SitedAll cs) := by
  unfold ascribedType
  exact .skip fun _ => .ite (fun _ => typeBehind_yields) fun _ => .nil

end

end Parser

end BaselineAudit.Script
