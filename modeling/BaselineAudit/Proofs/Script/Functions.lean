import BaselineAudit.Proofs.Script.Types
import BaselineAudit.Script.Parser.Declaration

/-!
# Functions, classes and declarations in the text

The parsers of functions, classes, variables and other declarations yield sited trees.

* `Parser.functionParts_yields`, `Parser.classFrom_yields`.
* `Parser.variableList_yields`, `Parser.declaration_yields`.
-/

namespace BaselineAudit.Script.Parser

open Lexer

variable {cs : List Char} {d : Descent} [hd : Descends cs d]

/-! ## Functions -/

theorem functionParts_yields {isAsync isGenerator : Bool} :
    Yields cs (functionParts d isAsync isGenerator) fun parts => Tree.SitedAll cs parts.nodes := by
  unfold functionParts
  refine .bind (within_yields (Q := fun parts => Tree.SitedAll cs parts.nodes) ?_)
    fun parts hparts => ?_
  · refine .bind signature_yields fun ps hps => .skip fun _ => ?_
    exact .ite
      (fun _ => .bind (hd.yields _) fun _ hbody => .pure (by simp [FunctionParts.nodes, hps, hbody]))
      fun _ => .pure (by simp [FunctionParts.nodes, hps])
  · exact .ite (fun _ => .skip fun _ => .when (.skip fun _ => .pure hparts)) fun _ => .pure hparts

theorem functionBody_yields : Yields cs (functionBody d) (Tree.Sited cs) := by
  unfold functionBody
  exact .bind startHere_yields fun _ hstart => .skip fun _ =>
    .bind (within_yields (upTo_yields (hd.yields _))) fun _ hitems => .skip fun _ =>
      finish_yields hstart trivial hitems

omit hd in
theorem optionalName_yields {c : Context} : Yields cs (optionalName c) (Tree.SitedAll cs) := by
  unfold optionalName
  refine .bind peek_yields fun t ht => .ite (fun _ => .skip fun _ => .skip fun _ => ?_) fun _ => .nil
  exact .single (finish_yields ht.start_le trivial (by simp))

theorem functionExpression_yields : Yields cs (functionExpression d) (Tree.Sited cs) := by
  unfold functionExpression
  exact .bind startHere_yields fun _ hstart => .skip fun _ => .skip fun _ => .skip fun _ =>
    .skip fun _ => .bind optionalName_yields fun _ hname => .bind functionParts_yields
      fun _ hparts => finish_yields hstart trivial (by simp [hname, hparts])

omit hd in
instance atFunction_stays : Stays atFunction := by unfold atFunction; infer_instance

theorem functionDeclaration_yields {single isDefault : Bool} :
    Yields cs (functionDeclaration d single isDefault) (Tree.Sited cs) := by
  unfold functionDeclaration
  exact .bind startHere_yields fun _ hstart => .skip fun _ => .skip fun _ => .skip fun _ =>
    .skip fun _ => .bind optionalName_yields fun _ hname => .skip fun _ =>
      .bind functionParts_yields fun _ hparts => .skip fun _ =>
        finish_yields hstart trivial (by simp [hname, hparts])

theorem method_yields {isAsync isGenerator : Bool} :
    Yields cs (method d isAsync isGenerator) fun r => r.2.Sited cs := by
  unfold method
  exact .bind startHere_yields fun _ hstart => .bind functionParts_yields fun _ hparts =>
    .bind (finish_yields hstart trivial hparts) fun _ hf => .pure hf

omit hd in
instance checkGetter_keeps (p : Parameters) : Keeps cs (checkGetter p) := by
  unfold checkGetter; infer_instance

omit hd in
instance checkSetter_keeps (p : Parameters) : Keeps cs (checkSetter p) := by
  unfold checkSetter; infer_instance

/-! ## Classes -/

omit hd in
instance checkMemberModifiers_keeps (allowed seen : List String) :
    Keeps cs (checkMemberModifiers allowed seen) := by
  unfold checkMemberModifiers; infer_instance

omit hd in
instance checkMemberName_keeps (key : Key) (taken : List String) :
    Keeps cs (checkMemberName key taken) := by
  unfold checkMemberName; infer_instance

section

variable {start : Nat} {decs : List Tree} {mods : List String} (hstart : start ≤ byteCount cs)
  (hdecs : Tree.SitedAll cs decs)

include hstart hdecs

theorem accessorMember_yields {check : Parameters → P Unit} [∀ p, Keeps cs (check p)] :
    Yields cs (accessorMember d start decs mods check) (Tree.Sited cs) := by
  unfold accessorMember
  exact .bind memberKey_yields fun _ hkey => .bind method_yields fun _ hf => .skip fun _ =>
    .skip fun _ => .skip fun _ => finish_yields hstart trivial (by simp [hdecs, hkey, hf])

theorem field_yields {key : Key} (hkey : key.node.Sited cs) {optional : Bool} :
    Yields cs (field d start decs mods key optional) (Tree.Sited cs) := by
  unfold field
  exact .skip fun _ => .skip fun _ => .skip fun _ => .when (.bind ascribedType_yields
    fun _ htypes => .bind (within_yields initializer_yields) fun _ hvalue => .skip fun _ =>
      .skip fun _ => .skip fun _ =>
        finish_yields hstart trivial (by simp [hdecs, hkey, htypes, hvalue]))

theorem fieldOrMethod_yields : Yields cs (fieldOrMethod d start decs mods) (Tree.Sited cs) := by
  unfold fieldOrMethod
  refine .skip fun _ => .bind memberKey_yields fun _ hkey => .skip fun _ => ?_
  extract_lets isAsync isStatic member
  have hmember : ∀ optional, Yields cs (member optional) (Tree.Sited cs) := fun _ => .skip fun _ =>
    .ite (fun _ => .bind method_yields fun _ hf => .skip fun _ => .skip fun _ =>
      finish_yields hstart trivial (by simp [hdecs, hkey, hf]))
      fun _ => field_yields hstart hdecs hkey
  exact .ite (fun _ => .skip hmember) fun _ => .skip hmember

end

theorem staticBlock_yields {decs : List Tree} {mods : List String} :
    Yields cs (staticBlock d decs mods) (Tree.Sited cs) := by
  unfold staticBlock
  exact .skip fun _ => .skip fun _ => within_yields (hd.yields _)

theorem classMember_yields : Yields cs (classMember d) (Tree.SitedAll cs) := by
  unfold classMember
  refine .bind startHere_yields fun _ hstart => .skip fun _ => .ite (fun _ => .nil)
    fun _ => .bind decorators_yields fun _ hdecs => .skip fun _ => .skip fun _ => .skip fun _ =>
      .ite (fun _ => .single staticBlock_yields) fun _ => .skip fun _ =>
        .ite (fun _ => .single (accessorMember_yields hstart hdecs)) fun _ => .skip fun _ =>
          .ite (fun _ => .single (accessorMember_yields hstart hdecs)) fun _ => .skip fun _ =>
            .skip fun _ => .ite (fun _ => ?_) fun _ => .single (fieldOrMethod_yields hstart hdecs)
  exact .skip fun _ => .bind (memberFrom_yields indexParts_yields) fun _ ht =>
    .pure (by simp [hdecs, ht])

theorem implemented_yields : Yields cs (implemented d) (Tree.Sited cs) := by
  unfold implemented
  exact .bind startHere_yields fun _ hstart => .bind referenceName_yields fun _ hname =>
    .bind typeName_yields fun _ htypes => finish_yields hstart trivial (by simp [hname, htypes])

theorem implementedNames_yields : Yields cs (implementedNames d) (Tree.SitedAll cs) := by
  unfold implementedNames
  exact .bind implemented_yields fun _ hfirst =>
    .bind (many_yields (.skip fun _ => .single implemented_yields)) fun _ hrest =>
      .pure (by simp [hfirst, hrest])

/-- The classes that a class builds on. -/
theorem heritageFrom_yields (n : Nat) (extended implementing : Bool) :
    Yields cs (heritageFrom d n extended implementing) (Tree.SitedAll cs) := by
  induction n generalizing extended implementing with
  | zero => exact .fail
  | succ n ih =>
    unfold heritageFrom
    refine .skip fun _ => .ite (fun _ => ?_) fun _ => .skip fun _ => .ite (fun _ => ?_) fun _ =>
      .nil
    · refine .skip fun _ => .bind (hd.yields _) fun _ hbase => .bind optionalTypeArguments_yields
        fun _ htypes => .bind (many_yields ?_) fun _ hothers => .bind (ih _ _) fun _ hrest =>
          .pure (by simp [hbase, htypes, hothers, hrest])
      exact .skip fun _ => .skip fun _ => .bind (hd.yields _) fun _ hother =>
        .bind optionalTypeArguments_yields fun _ htypes => .pure (by simp [hother, htypes])
    · exact .skip fun _ => .skip fun _ => .skip fun _ => .bind implementedNames_yields
        fun _ hnames => .bind (ih _ _) fun _ hrest => .pure (by simp [hnames, hrest])

theorem classBody_yields : Yields cs (classBody d) (Tree.SitedAll cs) := by
  unfold classBody
  exact .skip fun _ => .bind (within_yields (many_yields classMember_yields)) fun _ hmembers =>
    .skip fun _ => .pure hmembers

theorem classFrom_yields {start : Nat} {decs : List Tree} {needsName : Bool}
    (hstart : start ≤ byteCount cs) (hdecs : Tree.SitedAll cs decs) :
    Yields cs (classFrom d start decs needsName) (Tree.Sited cs) := by
  unfold classFrom
  refine .skip fun _ => .skip fun _ => ?_
  extract_lets behind
  have hbehind : ∀ name, Tree.SitedAll cs name → Yields cs (behind name) (Tree.Sited cs) :=
    fun _ hname => .skip fun _ => .bind typeParameters_yields fun _ hgenerics => .skip fun _ =>
      .bind (heritageFrom_yields _ _ _) fun _ hbases => .bind classBody_yields fun _ hmembers =>
        finish_yields hstart trivial (by simp [hdecs, hname, hgenerics, hbases, hmembers])
  exact .ite (fun _ => hbehind _ (by simp)) fun _ => .skip fun _ => .bind optionalName_yields hbehind

/-! ## Variables -/

omit hd in
instance checkValue_keeps (kind : VariableKind) (t : Tree) : Keeps cs (checkValue kind t) := by
  unfold checkValue
  refine ⟨.skip fun _ => .ite (fun _ => ?_) fun _ => .pure trivial⟩
  split <;> exact Keeps.yields

theorem declarator_yields {kind : VariableKind} {inLoop : Bool} :
    Yields cs (declarator d kind inLoop) (Tree.Sited cs) := by
  unfold declarator
  refine .bind startHere_yields fun _ hstart => .bind (hd.yields _) fun name hname => .skip fun _ =>
    .skip fun _ => ?_
  extract_lets behind optional
  have hbehind : ∀ u, Yields cs (behind u) (Tree.Sited cs) := by
    refine fun _ => .bind ascribedType_yields fun types htypes => .skip fun _ => ?_
    extract_lets node
    have hnode : ∀ value, Tree.SitedAll cs value → Yields cs (node value) (Tree.Sited cs) :=
      fun _ hvalue => .bind (finish_yields hstart trivial (by simp [hname, htypes, hvalue]))
        fun _ ht => .when (.pure ht)
    exact .ite (fun _ => .bind (hd.yields _) fun _ hvalue => hnode _ (by simp [hvalue]))
      fun _ => hnode _ (by simp)
  have hoptional : ∀ u, Yields cs (optional u) (Tree.Sited cs) := fun _ => .skip fun _ =>
    .ite (fun _ => .skip hbehind) fun _ => hbehind ()
  exact .ite (fun _ => .skip fun _ => .skip fun _ => .ite (fun _ => .skip hoptional)
    fun _ => hoptional ()) fun _ => hbehind ()

theorem variablesFrom_yields {start : Nat} {kind : VariableKind} {inLoop : Bool}
    (hstart : start ≤ byteCount cs) :
    Yields cs (variablesFrom d start kind inLoop) (Tree.Sited cs) := by
  unfold variablesFrom
  refine .bind declarator_yields fun _ hfirst => .bind (many_yields ?_) fun _ hrest =>
    .when (finish_yields hstart trivial (by simp [hfirst, hrest]))
  exact .skip fun _ => .single declarator_yields

theorem variableList_yields {inLoop : Bool} : Yields cs (variableList d inLoop) (Tree.Sited cs) := by
  unfold variableList
  exact .bind startHere_yields fun _ hstart => .skip fun _ => .skip fun _ =>
    variablesFrom_yields hstart

omit hd in
instance isUsing_keeps : Keeps cs isUsing := by unfold isUsing; infer_instance

omit hd in
instance isAwaitUsing_stays : Stays isAwaitUsing := looks_stays _

theorem usingVariables_yields {inLoop : Bool} :
    Yields cs (usingVariables d inLoop) (Tree.Sited cs) := by
  unfold usingVariables
  refine .bind startHere_yields fun _ hstart => .skip fun _ => ?_
  extract_lets behind
  have hbehind : ∀ u, Yields cs (behind u) (Tree.Sited cs) := fun _ => .skip fun _ =>
    variablesFrom_yields hstart
  exact .ite (fun _ => .skip fun _ => .skip fun _ => .skip hbehind) fun _ => hbehind ()

/-! ## Declarations with types -/

theorem namesBehind_yields {word : String} : Yields cs (namesBehind d word) (Tree.SitedAll cs) := by
  unfold namesBehind
  exact .skip fun _ => .ite (fun _ => implementedNames_yields) fun _ => .nil

theorem interfaceDeclaration_yields : Yields cs (interfaceDeclaration d) (Tree.Sited cs) := by
  unfold interfaceDeclaration
  refine .bind startHere_yields fun _ hstart => .skip fun _ => .bind bindingName_yields
    fun _ hname => .bind typeParameters_yields fun _ hgenerics => .bind namesBehind_yields
      fun _ hbases => .bind namesBehind_yields fun _ hothers => .skip fun _ =>
        .bind typeMembers_yields fun _ hmembers => ?_
  exact finish_yields hstart trivial (by simp [hname, hgenerics, hbases, hothers, hmembers])

theorem typeDeclaration_yields : Yields cs (typeDeclaration d) (Tree.Sited cs) := by
  unfold typeDeclaration
  exact .bind startHere_yields fun _ hstart => .skip fun _ => .bind bindingName_yields
    fun _ hname => .bind typeParameters_yields fun _ hgenerics => .skip fun _ =>
      .bind (hd.yields _) fun _ ht => .skip fun _ =>
        finish_yields hstart trivial (by simp [hname, hgenerics, ht])

theorem enumMember_yields : Yields cs (enumMember d) (Tree.Sited cs) := by
  unfold enumMember
  exact .bind peek_yields fun _ ht => .bind propertyKey_yields fun _ _ => .skip fun _ =>
    .bind initializer_yields fun _ hvalue => finish_yields ht.start_le trivial hvalue

theorem enumDeclaration_yields : Yields cs (enumDeclaration d) (Tree.Sited cs) := by
  unfold enumDeclaration
  exact .bind startHere_yields fun _ hstart => .skip fun _ => .skip fun _ =>
    .bind (between_yields enumMember_yields) fun _ hmembers => finish_yields hstart trivial hmembers

theorem namespaceDeclaration_yields : Yields cs (namespaceDeclaration d) (Tree.Sited cs) := by
  unfold namespaceDeclaration
  refine .bind startHere_yields fun _ hstart => .skip fun _ => .skip fun _ => .ite (fun _ => ?_)
    fun _ => ?_
  · exact .skip fun _ => .skip fun _ => .ite (fun _ => .bind (hd.yields _) fun _ hbody =>
      finish_yields hstart trivial (by simp [hbody])) fun _ => .skip fun _ =>
        finish_yields hstart trivial (by simp)
  · exact .skip fun _ => .skip fun _ => .bind (hd.yields _) fun _ hbody =>
      finish_yields hstart trivial (by simp [hbody])

theorem globalDeclaration_yields : Yields cs (globalDeclaration d) (Tree.Sited cs) := by
  unfold globalDeclaration
  exact .bind startHere_yields fun _ hstart => .skip fun _ => .bind (hd.yields _) fun _ hbody =>
    finish_yields hstart trivial (by simp [hbody])

omit hd in
theorem importEquals_yields {start : Nat} (hstart : start ≤ byteCount cs) :
    Yields cs (importEquals start) (Tree.Sited cs) := by
  unfold importEquals
  refine .skip fun _ => .skip fun _ => .skip fun _ => .ite (fun _ => ?_) fun _ => ?_
  · exact .skip fun _ => .skip fun _ => .skip fun _ => .skip fun _ => .skip fun _ =>
      finish_yields hstart trivial (by simp)
  · exact .bind referenceName_yields fun _ hname => .skip fun _ => .skip fun _ => .skip fun _ =>
      finish_yields hstart trivial (by simp [hname])

omit hd in
instance declarationModifiersFrom_keeps (n : Nat) : Keeps cs (declarationModifiersFrom n) := by
  induction n with
  | zero => exact .fail
  | succ n ih => unfold declarationModifiersFrom; infer_instance

theorem declarationFrom_yields {start : Nat} {decs : List Tree} {mods : List String}
    (hstart : start ≤ byteCount cs) (hdecs : Tree.SitedAll cs decs) :
    Yields cs (declarationFrom d start decs mods) (Tree.Sited cs) := by
  have typedOnly : ∀ {p : P Tree}, Yields cs p (Tree.Sited cs) →
      Yields cs (do if ← typed then p else fail) (Tree.Sited cs) := fun hp => .skip fun _ =>
    .ite (fun _ => hp) fun _ => .fail
  unfold declarationFrom
  refine .skip fun _ => .skip fun _ => ?_
  split
  · exact variableList_yields
  · exact variableList_yields
  · exact .skip fun _ => .ite (fun _ => .skip fun _ => enumDeclaration_yields) fun _ =>
      variableList_yields
  · exact .skip fun _ => classFrom_yields hstart hdecs
  · exact typedOnly interfaceDeclaration_yields
  · exact typedOnly typeDeclaration_yields
  · exact typedOnly enumDeclaration_yields
  · exact typedOnly namespaceDeclaration_yields
  · exact typedOnly namespaceDeclaration_yields
  · exact typedOnly globalDeclaration_yields
  · exact .skip fun _ => .ite (fun _ => functionDeclaration_yields) fun _ => .fail

theorem declaration_yields {decs : List Tree} (hdecs : Tree.SitedAll cs decs) :
    Yields cs (declaration d decs) (Tree.Sited cs) := by
  unfold declaration
  refine .bind startHere_yields fun _ hstart => .skip fun _ => ?_
  extract_lets behind
  have hbehind : ∀ mods, Yields cs (behind mods) (Tree.Sited cs) := fun _ => .skip fun _ =>
    .skip fun _ => .skip fun _ => within_yields (declarationFrom_yields hstart hdecs)
  exact .ite (fun _ => .skip fun _ => .skip hbehind) fun _ => .skip hbehind

omit hd in
instance startsDeclaration_keeps : Keeps cs startsDeclaration := by
  unfold startsDeclaration; infer_instance

end BaselineAudit.Script.Parser
