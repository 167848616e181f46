import BaselineAudit.Proofs.Audit.Keys
import BaselineAudit.Proofs.Script.Extents

/-!
# Scripts in the text

The parsers of imports, exports and statements yield sited trees, and so does the parser of scripts.

* `Parser.exportDeclaration_yields`, `Parser.statement_yields`.
* `Parser.descent_descends`: the rules yield sited trees at every depth, and those of expressions cover
  what they took.
* `parse?_sited`: the tree of a script stands in its text.
* `usagesOf_starts`: what a script uses starts in its text.
-/

-- A long parser makes one long search for an instance.
set_option synthInstance.maxSize 100000

namespace BaselineAudit.Script

open Lexer

namespace Parser

variable {cs : List Char}

/-! ## Imports -/

instance forIn_keeps {α β : Type} {items : List α} {b : β} {f : α → β → P (ForInStep β)}
    [hf : ∀ a b, Keeps cs (f a b)] : Keeps cs (forIn items b f) := by
  induction items generalizing b with
  | nil => exact .pure b
  | cons a items ih =>
    rw [List.forIn_cons]
    refine ⟨.skip fun step => ?_⟩
    cases step with
    | done b => exact .pure trivial
    | yield b => exact Keeps.yields

theorem moduleName_yields : Yields cs moduleName (·.start < byteCount cs) := by
  unfold moduleName
  refine .bind peek_yields fun t ht => .ite (fun hword => ?_) fun _ => .ite (fun hstring => ?_)
    fun _ => .fail
  · exact .skip fun _ => .pure (ht.lt_of_isWord hword)
  · exact .skip fun _ => .pure (ht.start_lt (by simp [beq_iff_eq.mp hstring]))

instance moduleName_keeps : Keeps cs moduleName := moduleName_yields.keeps

instance atModuleName_keeps : Keeps cs atModuleName := by unfold atModuleName; infer_instance

theorem aliased_yields {name : Token} (hname : name.start < byteCount cs) :
    Yields cs (aliased name) (·.name.start < byteCount cs) := by
  unfold aliased
  exact .skip fun _ => .ite (fun _ => .skip fun _ => .pure hname) fun _ => .pure hname

/-- A name in braces starts in the text, whichever of the words there it is. -/
theorem specifier_yields : Yields cs specifier (·.name.start < byteCount cs) := by
  unfold specifier
  refine .bind moduleName_yields fun first hfirst => .skip fun _ =>
    .ite (fun _ => aliased_yields hfirst) fun _ => .skip fun _ => .ite (fun _ => ?_) fun _ =>
      .skip fun _ => .ite (fun _ => .bind moduleName_yields fun _ hname => aliased_yields hname)
        fun _ => .pure hfirst
  refine .bind moduleName_yields fun asWord hword => .skip fun _ => .ite (fun _ => ?_) fun _ =>
    .skip fun _ => .ite (fun _ => .skip fun _ => .pure hfirst) fun _ => .pure hword
  exact .skip fun _ => .skip fun _ => .ite (fun _ => .skip fun _ => .pure hword) fun _ =>
    .pure hfirst

theorem specifiersFrom_yields (n : Nat) :
    Yields cs (specifiersFrom n) fun names => ∀ s ∈ names, s.name.start < byteCount cs := by
  induction n with
  | zero => exact .fail
  | succ n ih =>
    unfold specifiersFrom
    exact .skip fun _ => .ite (fun _ => .pure (by simp)) fun _ => .bind specifier_yields
      fun _ hfirst => .skip fun _ => .ite (fun _ => .pure (by simp [hfirst])) fun _ => .skip fun _ =>
        ih.bind fun _ hrest => .pure (List.forall_mem_cons.mpr ⟨hfirst, hrest⟩)

theorem specifiers_yields :
    Yields cs specifiers fun names => ∀ s ∈ names, s.name.start < byteCount cs := by
  unfold specifiers
  exact .skip fun _ => .skip specifiersFrom_yields

instance specifiers_keeps : Keeps cs specifiers := specifiers_yields.keeps

instance importAttributesFrom_keeps (n : Nat) (seen : List String) :
    Keeps cs (importAttributesFrom n seen) := by
  induction n generalizing seen with
  | zero => exact .fail
  | succ n ih => unfold importAttributesFrom; infer_instance

instance importAttributes_keeps : Keeps cs importAttributes := by
  unfold importAttributes; infer_instance

instance moduleSource_keeps : Keeps cs moduleSource := by unfold moduleSource; infer_instance

instance checkImport_keeps (s : Specifier) : Keeps cs (checkImport s) := by
  unfold checkImport; infer_instance

instance importAll_keeps : Keeps cs importAll := by unfold importAll; infer_instance

instance importNames_keeps : Keeps cs importNames := by unfold importNames; infer_instance

instance importRest_keeps (hasDefault : Bool) : Keeps cs (importRest hasDefault) := by
  unfold importRest; infer_instance

instance isTypeImport_keeps : Keeps cs isTypeImport := by unfold isTypeImport; infer_instance

instance isSourceImport_keeps : Keeps cs isSourceImport := by unfold isSourceImport; infer_instance

instance importDefault_keeps : Keeps cs importDefault := by unfold importDefault; infer_instance

theorem importDeclaration_yields : Yields cs importDeclaration (Tree.Sited cs) := by
  unfold importDeclaration
  refine .bind startHere_yields fun start hstart => .skip fun _ => .skip fun _ => .ite (fun _ => ?_)
    fun _ => .skip fun first => .skip fun named => .skip fun _ => .skip fun _ => ?_
  · exact .skip fun _ => finish_yields hstart trivial (by simp)
  · extract_lets behind
    have hbehind : ∀ hasDefault, Yields cs (behind hasDefault) (Tree.Sited cs) := fun _ =>
      .skip fun _ => .skip fun _ => .ite (fun _ => importEquals_yields hstart) fun _ =>
        .skip fun _ => finish_yields hstart trivial (by simp)
    exact .skip fun _ => .skip fun _ => .ite (fun _ => .skip hbehind) fun _ =>
      .ite (fun _ => .skip hbehind) fun _ => .ite (fun _ => hbehind false) fun _ => hbehind named

/-! ## Exports -/

instance exportName_keeps (name : String) : Keeps cs (exportName name) := by
  have hexported : Stays (modify fun s => { s with exported := name :: s.exported } : P PUnit) :=
    .modify fun _ => ⟨rfl, rfl, rfl, rfl⟩
  unfold exportName
  infer_instance

instance checkExport_keeps (s : Specifier) : Keeps cs (checkExport s) := by
  unfold checkExport; infer_instance

theorem exportAll_yields {start : Nat} (hstart : start ≤ byteCount cs) :
    Yields cs (exportAll start) (Tree.Sited cs) := by
  unfold exportAll
  refine .skip fun _ => .skip fun _ => ?_
  extract_lets behind
  have hbehind : ∀ u, Yields cs (behind u) (Tree.Sited cs) := fun _ => .skip fun _ => .skip fun _ =>
    finish_yields hstart trivial (by simp)
  exact .ite (fun _ => .skip fun _ => .skip hbehind) fun _ => hbehind ()

theorem specifier_sited {s : Specifier} (isLocal : Bool) (hs : s.name.start < byteCount cs) :
    (s.node isLocal).Sited cs := by
  refine Tree.sited_node.mpr ⟨Nat.le_of_lt hs, trivial, ?_⟩
  split
  · exact Tree.sitedAll_cons.mpr ⟨Tree.sited_node.mpr ⟨Nat.le_of_lt hs, hs, by simp⟩, by simp⟩
  · exact Tree.sitedAll_nil

theorem exportNames_yields {start : Nat} (hstart : start ≤ byteCount cs) :
    Yields cs (exportNames start) (Tree.Sited cs) := by
  unfold exportNames
  refine .bind specifiers_yields fun names hnames => .skip fun _ => ?_
  extract_lets isLocal behind
  have hnodes : Tree.SitedAll cs (names.map (·.node isLocal)) := by
    refine Tree.sitedAll_iff.mpr fun t ht => ?_
    obtain ⟨s, hs, rfl⟩ := List.mem_map.mp ht
    exact specifier_sited isLocal (hnames s hs)
  have hbehind : ∀ u, Yields cs (behind u) (Tree.Sited cs) := fun _ => .skip fun _ => .skip fun _ =>
    finish_yields hstart trivial hnodes
  exact .ite (fun _ => .skip hbehind) fun _ => .skip fun _ => .skip hbehind

section

variable {d : Descent} [hd : Descends cs d]

section

variable {start : Nat} {decs : List Tree} (hstart : start ≤ byteCount cs)
  (hdecs : Tree.SitedAll cs decs)

include hstart hdecs

theorem exportDefault_yields : Yields cs (exportDefault d start decs) (Tree.Sited cs) := by
  have node : ∀ {p : P Tree}, Yields cs p (Tree.Sited cs) →
      Yields cs (do finish .exportDefault start [← p]) (Tree.Sited cs) := fun hp =>
    hp.bind fun _ ht => finish_yields hstart trivial (by simp [ht])
  unfold exportDefault
  refine .skip fun _ => .skip fun _ => ?_
  extract_lets behind
  have hbehind : ∀ decs, Tree.SitedAll cs decs → Yields cs (behind decs) (Tree.Sited cs) := by
    intro decs hdecs
    refine .bind startHere_yields fun _ hhere => .skip fun _ => .skip fun _ =>
      .ite (fun _ => node (classFrom_yields hhere hdecs)) fun _ => .skip fun _ => .skip fun _ =>
        .ite (fun _ => .skip fun _ => node (classFrom_yields hhere hdecs)) fun _ => .skip fun _ =>
          .skip fun _ => .ite (fun _ => node interfaceDeclaration_yields) fun _ => .skip fun _ =>
            .ite (fun _ => node functionDeclaration_yields) fun _ => ?_
    exact .bind (hd.yields _) fun _ he => .skip fun _ =>
      finish_yields hstart trivial (by simp [he])
  exact .ite (fun _ => .bind decorators_yields hbehind) fun _ => hbehind _ hdecs

theorem exportDeclared_yields : Yields cs (exportDeclared d start decs) (Tree.Sited cs) := by
  unfold exportDeclared
  exact .bind (declaration_yields hdecs) fun _ ht => .skip fun _ =>
    finish_yields hstart trivial (by simp [ht])

theorem exportDeclaration_yields : Yields cs (exportDeclaration d start decs) (Tree.Sited cs) := by
  unfold exportDeclaration
  refine .skip fun _ => .skip fun _ => .skip fun _ => .skip fun _ =>
    .ite (fun _ => exportDefault_yields hstart hdecs) fun _ => .ite (fun _ => exportAll_yields hstart)
      fun _ => .ite (fun _ => exportNames_yields hstart) fun _ => .ite (fun _ => .skip fun _ =>
        .ite (fun _ => exportAll_yields hstart) fun _ => exportNames_yields hstart) fun _ =>
          .ite (fun _ => ?_) fun _ => .ite (fun _ => ?_) fun _ =>
            .ite (fun _ => importDeclaration_yields) fun _ => exportDeclared_yields hstart hdecs
  · exact .skip fun _ => .bind (hd.yields _) fun _ he => .skip fun _ =>
      finish_yields hstart trivial (by simp [he])
  · exact .skip fun _ => .skip fun _ => .skip fun _ => .skip fun _ =>
      finish_yields hstart trivial (by simp)

end

/-! ## Conditions and loops -/

theorem block_yields : Yields cs (block d) (Tree.Sited cs) := by
  unfold block
  exact .bind startHere_yields fun _ hstart => .skip fun _ => .bind (upTo_yields (hd.yields _))
    fun _ hitems => .skip fun _ => finish_yields hstart trivial hitems

theorem condition_yields : Yields cs (condition d) (Tree.Sited cs) := by
  unfold condition
  exact .skip fun _ => .bind (grouped_yields (hd.yields _)) fun _ he => .skip fun _ => .pure he

theorem ifStatement_yields : Yields cs (ifStatement d) (Tree.Sited cs) := by
  unfold ifStatement
  refine .bind startHere_yields fun _ hstart => .skip fun _ => .bind condition_yields fun _ htest =>
    .bind (hd.yields _) fun _ hyes => .skip fun _ => ?_
  extract_lets node
  have hnode : ∀ no, Tree.SitedAll cs no → Yields cs (node no) (Tree.Sited cs) := fun _ hno =>
    finish_yields hstart trivial (by simp [htest, hyes, hno])
  exact .ite (fun _ => .bind (hd.yields _) fun _ hno => hnode _ (by simp [hno])) fun _ =>
    hnode _ (by simp)

theorem doStatement_yields : Yields cs (doStatement d) (Tree.Sited cs) := by
  unfold doStatement
  exact .bind startHere_yields fun _ hstart => .skip fun _ => .bind (hd.yields _) fun _ hbody =>
    .skip fun _ => .bind condition_yields fun _ htest => .skip fun _ =>
      finish_yields hstart trivial (by simp [hbody, htest])

theorem headedStatement_yields : Yields cs (headedStatement d) (Tree.Sited cs) := by
  unfold headedStatement
  exact .bind startHere_yields fun _ hstart => .skip fun _ => .bind condition_yields fun _ hhead =>
    .bind (hd.yields _) fun _ hbody => finish_yields hstart trivial (by simp [hhead, hbody])

section

variable {start : Nat} {waits : Bool} (hstart : start ≤ byteCount cs)

include hstart

theorem loopOver_yields {item : Tree} (hitem : item.Sited cs) :
    Yields cs (loopOver d start waits item) (Tree.Sited cs) := by
  unfold loopOver
  refine .skip fun _ => .skip fun _ => ?_
  extract_lets behind
  have hbehind : ∀ items : Tree, items.Sited cs → Yields cs (behind items) (Tree.Sited cs) :=
    fun _ hitems => .skip fun _ => .skip fun _ => .bind (hd.yields _) fun _ hbody =>
      finish_yields hstart trivial (by simp [hitem, hitems, hbody])
  exact .ite (fun _ => .bind (hd.yields _) hbehind) fun _ => .bind (hd.yields _) hbehind

theorem countingLoop_yields {init : List Tree} (hinit : Tree.SitedAll cs init) :
    Yields cs (countingLoop d start waits init) (Tree.Sited cs) := by
  unfold countingLoop
  refine .bind (@forIn_keeps _ _ _ _ _ _ fun t _ => ?_).yields fun _ _ =>
    .skip fun _ => .skip fun _ => ?_
  · split <;> infer_instance
  extract_lets behind
  have hbehind : ∀ test, Tree.SitedAll cs test → Yields cs (behind test) (Tree.Sited cs) := by
    intro test htest
    refine .skip fun _ => .skip fun _ => ?_
    extract_lets node
    have hnode : ∀ step, Tree.SitedAll cs step → Yields cs (node step) (Tree.Sited cs) :=
      fun _ hstep => .skip fun _ => .skip fun _ => .bind (hd.yields _) fun _ hbody =>
        finish_yields hstart trivial (by simp [hinit, htest, hstep, hbody])
    exact .ite (fun _ => hnode _ (by simp)) fun _ => .bind (grouped_yields (hd.yields _))
      fun _ hstep => hnode _ (by simp [hstep])
  exact .ite (fun _ => hbehind _ (by simp)) fun _ => .bind (grouped_yields (hd.yields _))
    fun _ htest => hbehind _ (by simp [htest])

end

section

omit hd

instance startsLoopVariables_keeps : Keeps cs startsLoopVariables := by
  unfold startsLoopVariables; infer_instance

instance startsLoopResources_keeps : Keeps cs startsLoopResources := by
  unfold startsLoopResources; infer_instance

theorem withoutIn_yields {α : Type} {p : P α} {Q : α → Prop} (hp : Yields cs p Q) :
    Yields cs (withoutIn p) Q := within_yields hp

end

theorem forStatement_yields : Yields cs (forStatement d) (Tree.Sited cs) := by
  unfold forStatement
  refine .bind startHere_yields fun start hstart => .skip fun _ => .skip fun waits => ?_
  extract_lets behind
  have hbehind : ∀ u, Yields cs (behind u) (Tree.Sited cs) := by
    refine fun _ => .skip fun _ => .skip fun _ =>
      .ite (fun _ => countingLoop_yields hstart (by simp)) fun _ => .skip fun declared =>
        .skip fun _ => .ite
          (fun _ => .bind (withoutIn_yields (Q := Tree.Sited cs) ?_) fun _ hvars => ?_) fun _ =>
          .skip fun first => .bind (withoutIn_yields (hd.yields _)) fun _ he => .skip fun _ =>
            .ite (fun _ => ?_) fun _ => countingLoop_yields hstart (by simp [he])
    · exact .ite (fun _ => variableList_yields) fun _ => usingVariables_yields
    · exact .skip fun _ => .ite (fun _ => loopOver_yields hstart hvars) fun _ =>
        countingLoop_yields hstart (by simp [hvars])
    · exact .skip fun _ => .skip fun _ => .skip fun _ => .skip fun _ => .skip fun _ =>
        loopOver_yields hstart he
  exact .ite (fun _ => .skip fun _ => .skip fun _ => .skip hbehind) fun _ => hbehind ()

/-! ## Other statements -/

omit hd in
theorem jumpStatement_yields : Yields cs jumpStatement (Tree.Sited cs) := by
  unfold jumpStatement
  exact .bind startHere_yields fun _ hstart => .skip fun _ => .skip fun _ => .when (.skip fun _ =>
    finish_yields hstart trivial (by simp))

theorem returnStatement_yields : Yields cs (returnStatement d) (Tree.Sited cs) := by
  unfold returnStatement
  refine .bind startHere_yields fun _ hstart => .skip fun _ => .skip fun _ => .skip fun _ =>
    .skip fun _ => ?_
  extract_lets node
  have hnode : ∀ value, Tree.SitedAll cs value → Yields cs (node value) (Tree.Sited cs) :=
    fun _ hvalue => .skip fun _ => finish_yields hstart trivial hvalue
  exact .ite (fun _ => hnode _ (by simp)) fun _ => .bind (grouped_yields (hd.yields _))
    fun _ hvalue => hnode _ (by simp [hvalue])

theorem throwStatement_yields : Yields cs (throwStatement d) (Tree.Sited cs) := by
  unfold throwStatement
  exact .bind startHere_yields fun _ hstart => .skip fun _ => .skip fun _ => .skip fun _ =>
    .bind (hd.yields _) fun _ hvalue => .skip fun _ =>
      finish_yields hstart trivial (by simp [hvalue])

theorem switchCase_yields : Yields cs (switchCase d) (Tree.Sited cs) := by
  unfold switchCase
  refine .bind startHere_yields fun _ hstart => .skip fun _ => ?_
  extract_lets more node
  have hnode : ∀ test, Tree.SitedAll cs test → Yields cs (node test) (Tree.Sited cs) :=
    fun _ htest => .skip fun _ => .bind (many_yields (.single (hd.yields _))) fun _ hbody =>
      finish_yields hstart trivial (by simp [htest, hbody])
  exact .ite (fun _ => hnode _ (by simp)) fun _ => .skip fun _ => .bind (hd.yields _) fun _ htest =>
    hnode _ (by simp [htest])

theorem switchStatement_yields : Yields cs (switchStatement d) (Tree.Sited cs) := by
  unfold switchStatement
  exact .bind startHere_yields fun _ hstart => .skip fun _ => .bind condition_yields fun _ hvalue =>
    .skip fun _ => .bind (upTo_yields switchCase_yields) fun _ hcases => .skip fun _ =>
      finish_yields hstart trivial (by simp [hvalue, hcases])

theorem catchClause_yields : Yields cs (catchClause d) (Tree.SitedAll cs) := by
  unfold catchClause
  refine .skip fun _ => .skip fun _ => ?_
  extract_lets parts
  have hparts : ∀ name, Tree.SitedAll cs name → Yields cs (parts name) (Tree.SitedAll cs) :=
    fun _ hname => .bind (hd.yields _) fun _ hbody => .pure (by simp [hname, hbody])
  exact .ite (fun _ => .bind (hd.yields _) fun _ hname => .bind ascribedType_yields
    fun _ htypes => .skip fun _ => hparts _ (by simp [hname, htypes])) fun _ => hparts _ (by simp)

theorem tryStatement_yields : Yields cs (tryStatement d) (Tree.Sited cs) := by
  unfold tryStatement
  refine .bind startHere_yields fun _ hstart => .skip fun _ => .bind (hd.yields _) fun _ hbody =>
    .skip fun _ => ?_
  extract_lets behind
  have hbehind : ∀ handler, Tree.SitedAll cs handler → Yields cs (behind handler) (Tree.Sited cs) := by
    intro handler hhandler
    refine .skip fun _ => ?_
    extract_lets node
    have hnode : ∀ last, Tree.SitedAll cs last → Yields cs (node last) (Tree.Sited cs) :=
      fun _ hlast => .skip fun _ =>
        finish_yields hstart trivial (by simp [hbody, hhandler, hlast])
    exact .ite (fun _ => .bind (hd.yields _) fun _ hlast => hnode _ (by simp [hlast])) fun _ =>
      hnode _ (by simp)
  exact .ite (fun _ => .bind catchClause_yields hbehind) fun _ => hbehind _ (by simp)

omit hd in
theorem bareStatement_yields : Yields cs bareStatement (Tree.Sited cs) := by
  unfold bareStatement
  exact .bind startHere_yields fun _ hstart => .skip fun _ =>
    .ite (fun _ => finish_yields hstart trivial (by simp)) fun _ => .skip fun _ => .skip fun _ =>
      finish_yields hstart trivial (by simp)

theorem expressionStatement_yields : Yields cs (expressionStatement d) (Tree.Sited cs) := by
  unfold expressionStatement
  refine .bind startHere_yields fun _ hstart => .bind (hd.yields _) fun _ he => ?_
  extract_lets behind
  have hbehind : ∀ isLabel, Yields cs (behind isLabel) (Tree.Sited cs) := fun _ => .ite
    (fun _ => .bind (hd.yields _) fun _ hs => finish_yields hstart trivial (by simp [hs]))
    fun _ => .skip fun _ => finish_yields hstart trivial (by simp [he])
  exact .ite (fun _ => .skip hbehind) fun _ => .skip hbehind

theorem letStatement_yields {single : Bool} : Yields cs (letStatement d single) (Tree.Sited cs) := by
  unfold letStatement
  refine .bind startHere_yields fun _ hstart => .skip fun _ => .ite (fun _ => ?_) fun _ =>
    .ite (fun _ => ?_) fun _ => .skip fun _ => variableList_yields
  · exact .bind (hd.yields _) fun _ he => .skip fun _ => finish_yields hstart trivial (by simp [he])
  · exact .bind referenceName_yields fun _ he => .skip fun _ =>
      finish_yields hstart trivial (by simp [he])

theorem decoratedStatement_yields {single : Bool} :
    Yields cs (decoratedStatement d single) (Tree.Sited cs) := by
  unfold decoratedStatement
  exact .bind startHere_yields fun _ hstart => .bind decorators_yields fun _ hdecs => .skip fun _ =>
    .ite (fun _ => exportDeclaration_yields hstart hdecs) fun _ => .skip fun _ => .skip fun _ =>
      .skip fun _ => .skip fun _ => classFrom_yields hstart hdecs

theorem wordStatement_yields {single : Bool} {t : Token} :
    Yields cs (wordStatement d single t) (Tree.Sited cs) := by
  unfold wordStatement
  exact .skip fun _ => .ite (fun _ => functionDeclaration_yields) fun _ =>
    .ite (fun _ => letStatement_yields) fun _ => .skip fun _ => .skip fun _ =>
      .ite (fun _ => .skip fun _ => usingVariables_yields) fun _ => .skip fun _ => .skip fun _ =>
        .ite (fun _ => declaration_yields (by simp)) fun _ => expressionStatement_yields

theorem statement_yields {single : Bool} : Yields cs (statement d single) (Tree.Sited cs) := by
  unfold statement
  refine .bind peek_yields fun t ht => ?_
  split
  · exact hd.yields _
  · exact bareStatement_yields
  · exact decoratedStatement_yields
  · exact bareStatement_yields
  · exact variableList_yields
  · exact .skip fun _ => .skip fun _ => .ite (fun _ => declaration_yields (by simp)) fun _ =>
      .skip fun _ => variableList_yields
  · exact functionDeclaration_yields
  · exact .skip fun _ => classFrom_yields ht.start_le (by simp)
  · exact ifStatement_yields
  · exact doStatement_yields
  · exact headedStatement_yields
  · exact headedStatement_yields
  · exact forStatement_yields
  · exact jumpStatement_yields
  · exact jumpStatement_yields
  · exact returnStatement_yields
  · exact switchStatement_yields
  · exact throwStatement_yields
  · exact tryStatement_yields
  · exact exportDeclaration_yields ht.start_le (by simp)
  · exact .skip fun _ => .ite (fun _ => expressionStatement_yields) fun _ =>
      importDeclaration_yields
  · exact wordStatement_yields
  · exact expressionStatement_yields

/-! ## Scripts -/

instance rules_descends : Descends cs (rules d) where
  yields
    | .statement _ => statement_yields
    | .expression => expression_yields
    | .assignment _ => assignment_yields
    | .operators _ => operators_yields
    | .unary => unary_yields
    | .leftHand => leftHand_yields
    | .callee => callee_yields
    | .type => type_yields
    | .typeOperand => typeOperand_yields
    | .pattern => pattern_yields
    | .block => block_yields
    | .functionBody => functionBody_yields
    | .markup _ => markup_yields
  covers
    | .expression, _ => expression_covers
    | .assignment _, _ => assignment_covers
    | .operators _, _ => operators_covers
    | .unary, _ => unary_covers
    | .leftHand, _ => leftHand_covers
    | .callee, _ => callee_covers
    | .markup _, _ => markup_covers

end

/-- The rules yield sited trees at every depth, and those of expressions cover what they took. -/
instance descent_descends (depth : Nat) : Descends cs (descent depth) := by
  induction depth with
  | zero => exact ⟨fun _ => .fail, fun _ _ _ _ _ _ h => absurd h (by simp [descent, fail])⟩
  | succ depth ih =>
    have hrules : Descends cs (rules (descent depth)) := rules_descends
    exact ⟨fun goal => hrules.yields goal, fun goal => hrules.covers goal⟩

theorem script_yields {d : Descent} [hd : Descends cs d] : Yields cs (script d) (Tree.Sited cs) := by
  unfold script
  exact .bind (many_yields (.single (hd.yields _))) fun _ hitems =>
    finish_yields (Nat.zero_le _) trivial hitems

theorem start_at (dialect : Dialect) (cs : List Char) : (start dialect cs).At cs :=
  ⟨first_at cs, Nat.zero_le _, fun h => absurd rfl h⟩

end Parser

/-- The tree of a script stands in its text. -/
theorem parse?_sited {dialect : Dialect} {source : String} {tree : Tree}
    (h : parse? dialect source = some tree) : tree.Sited source.toList := by
  unfold parse? at h
  simp only at h
  split at h
  next t s hparse =>
    split at h
    · exact absurd h (by simp)
    · exact Option.some.inj h ▸ (Parser.script_yields (Parser.start_at dialect _) hparse).2
  next => exact absurd h (by simp)

/-! ## Nodes -/

namespace Tree

variable {cs : List Char}

mutual

/-- The nodes of a sited tree are sited. -/
theorem Sited.nodes : (t : Tree) → t.Sited cs → ∀ n ∈ t.nodes, n.Sited cs
  | node shape span children, h => by
    rw [Tree.nodes]
    intro n hn
    rcases List.mem_cons.mp hn with rfl | hn
    · exact h
    · exact SitedAll.nodes children h.children n hn

theorem SitedAll.nodes : (ts : List Tree) → SitedAll cs ts → ∀ n ∈ nodesOfAll ts, n.Sited cs
  | [], _ => by
    rw [nodesOfAll]
    exact fun n hn => absurd hn (by simp)
  | t :: ts, h => by
    rw [nodesOfAll]
    intro n hn
    obtain ⟨ht, hts⟩ := sitedAll_cons.mp h
    rcases List.mem_append.mp hn with hn | hn
    · exact Sited.nodes t ht n hn
    · exact SitedAll.nodes ts hts n hn

end

end Tree

/-! ## Usages -/

/-- What the nodes of a script use starts in it: nothing is read off its end. -/
theorem usagesOf_starts {source : String} {tree : Tree} (h : tree.Sited source.toList)
    (suppressed : List Span) :
    ∀ u ∈ usagesOf (LineIndex.ofText source).locate suppressed tree, u.Starts source.toList := by
  intro u hu
  obtain ⟨n, hn, hu⟩ := exists_node_of_mem_usagesOf _ _ hu
  have hsited := h.nodes tree n hn
  unfold usage? at hu
  split at hu
  · exact ⟨_, (Tree.sited_node.mp hsited).2.1, by
      rw [← Option.some.inj hu, ← LineIndex.locate_eq]; rfl⟩
  · exact ⟨_, (Tree.sited_node.mp hsited).2.1, by
      rw [← Option.some.inj hu, ← LineIndex.locate_eq]; rfl⟩
  · exact absurd hu (by simp)

theorem usages?_starts {dialect : Dialect} {source : String} {us : List Usage}
    (h : usages? dialect .whole source = some us) : ∀ u ∈ us, u.Starts source.toList := by
  obtain ⟨tree, htree, hus⟩ := Option.bind_eq_some_iff.mp h
  rw [← Option.some.inj hus]
  exact usagesOf_starts (parse?_sited htree) []

end BaselineAudit.Script
