import BaselineAudit.Proofs.Script.Steps
import BaselineAudit.Script.Parser.Type

/-!
# Names, patterns and types in the text

The parsers of names, keys, patterns, parameters and types yield sited trees.

* `Parser.propertyKey_yields`, `Parser.pattern_yields`, `Parser.parameters_yields`.
* `Parser.type_yields`, `Parser.typeOperand_yields`, `Parser.typeMembers_yields`.
-/

namespace BaselineAudit.Script.Parser

open Lexer

variable {cs : List Char}

/-! ## Modifiers -/

instance isModifier_keeps : Keeps cs isModifier := by unfold isModifier; infer_instance

instance eatModifier_keeps (word : String) : Keeps cs (eatModifier word) := by
  unfold eatModifier; infer_instance

instance checkModifiers_keeps (allowed seen : List String) :
    Keeps cs (checkModifiers allowed seen) := by
  unfold checkModifiers; infer_instance

instance modifiersFrom_keeps (withConst inClass : Bool) (n : Nat) (seen : List String) :
    Keeps cs (modifiersFrom withConst inClass n seen) := by
  induction n generalizing seen with
  | zero => exact .fail
  | succ n ih => unfold modifiersFrom; infer_instance

instance modifiers_keeps (withConst inClass : Bool) : Keeps cs (modifiers withConst inClass) := by
  unfold modifiers; infer_instance

/-! ## Keys and patterns -/

section

variable {d : Descent} [hd : Descends cs d]

theorem propertyKey_yields : Yields cs (propertyKey d) fun k => k.node.Sited cs := by
  have literal : ∀ {t : Token} {p : P PUnit} [Keeps cs p] (name : Option String) (isWord : Bool),
      Seen cs t → Yields cs (do
        p
        pure { name, node := ← finish .other t.start [], isWord : Key }) fun k => k.node.Sited cs :=
    fun _ _ ht => .skip fun _ => .bind (finish_yields ht.start_le trivial (by simp)) fun _ hnode =>
      .pure hnode
  unfold propertyKey
  refine peek_yields.bind fun t ht => .ite (fun _ => ?_) fun _ => .ite (fun _ => literal _ _ ht)
    fun _ => .ite (fun _ => literal _ _ ht) fun _ => .ite (fun _ => literal _ _ ht) fun _ =>
      .ite (fun _ => literal _ _ ht) fun _ => .fail
  exact .skip fun _ => .bind (allowingIn_yields (hd.yields _)) fun _ he => .skip fun _ => .pure he

theorem memberKey_yields : Yields cs (memberKey d) fun k => k.node.Sited cs := by
  unfold memberKey
  refine .bind peek_yields fun t ht => .ite (fun _ => ?_) fun _ => propertyKey_yields
  exact .skip fun _ => .skip fun _ => .bind (finish_yields ht.start_le trivial (by simp))
    fun _ hnode => .pure hnode

theorem initializer_yields : Yields cs (initializer d) (Tree.SitedAll cs) := by
  unfold initializer
  exact .skip fun _ => .ite (fun _ => .single (allowingIn_yields (hd.yields _))) fun _ => .nil

theorem patternWithDefault_yields : Yields cs (patternWithDefault d) (Tree.Sited cs) := by
  unfold patternWithDefault
  refine .bind startHere_yields fun _ hstart => .bind (hd.yields _) fun _ hp =>
    .bind initializer_yields fun _ hvalue => .ite (fun _ => .pure hp) fun _ => ?_
  exact finish_yields hstart trivial (by simp [hp, hvalue])

theorem restPattern_yields : Yields cs (restPattern d) (Tree.Sited cs) := by
  unfold restPattern
  refine .bind startHere_yields fun _ hstart => .skip fun _ => .bind (hd.yields _) fun _ hp =>
    .skip fun _ => ?_
  extract_lets behind
  have hbehind : ∀ optional, Yields cs (behind optional) (Tree.Sited cs) := fun _ =>
    .skip fun _ => .bind ascribedType_yields fun _ htypes => .bind initializer_yields
      fun _ hvalue => .skip fun _ => finish_yields hstart trivial (by simp [hp, htypes, hvalue])
  exact .ite (fun _ => .skip hbehind) fun _ => .skip hbehind

/-- Items with a rest behind them. -/
theorem withRest_yields {close : String} {item rest : P Tree} (hitem : Yields cs item (Tree.Sited cs))
    (hrest : Yields cs rest (Tree.Sited cs)) :
    Yields cs (withRest close item rest) fun r => Tree.SitedAll cs r.1 := by
  have hfrom : ∀ n seen, Yields cs (withRestFrom close item rest n seen)
      fun r => Tree.SitedAll cs r.1 := by
    intro n
    induction n with
    | zero => exact fun _ => .fail
    | succ n ih =>
      intro seen
      unfold withRestFrom
      refine .skip fun _ => .skip fun _ => .ite (fun _ => .pure (by simp)) fun _ => .skip fun _ =>
        .skip fun _ => ?_
      extract_lets isRest more
      have hmore : ∀ t : Tree, t.Sited cs → Yields cs (more t) fun r => Tree.SitedAll cs r.1 := by
        intro t ht
        refine .skip fun _ => .ite (fun _ => .pure (by simp [ht])) fun _ => .skip fun _ =>
          .skip fun _ => .ite (fun _ => ?_) fun _ => ?_
        · exact .skip fun _ => .skip fun _ => .pure (by simp [ht])
        · exact .bind (ih _) fun _ hts => .pure (by simp [ht, hts])
      exact .ite (fun _ => .bind hrest hmore) fun _ => .bind hitem hmore
  unfold withRest
  exact .skip fun n => hfrom n false

theorem arrayItem_yields : Yields cs (arrayItem d) (Tree.Sited cs) := by
  unfold arrayItem
  exact .skip fun _ => .ite (fun _ => .bind startHere_yields fun _ hstart =>
    finish_yields hstart trivial (by simp)) fun _ => patternWithDefault_yields

theorem propertyPattern_yields : Yields cs (propertyPattern d) (Tree.Sited cs) := by
  unfold propertyPattern
  refine .bind peek_yields fun t ht => .bind propertyKey_yields fun key hkey => .skip fun _ =>
    .ite (fun _ => ?_) fun _ => .ite (fun _ => ?_) fun _ => .fail
  · exact .bind patternWithDefault_yields fun _ hvalue =>
      finish_yields ht.start_le trivial (by simp [hkey, hvalue])
  · exact .skip fun _ => .skip fun _ => .bind (finish_yields ht.start_le trivial (by simp))
      fun _ hname => .bind initializer_yields fun _ hvalue =>
        finish_yields ht.start_le trivial (by simp [hname, hvalue])

theorem propertyRest_yields : Yields cs (propertyRest d) (Tree.Sited cs) := by
  unfold propertyRest
  exact .skip fun _ => .skip fun _ => restPattern_yields

/-- A name or pattern. -/
theorem pattern_yields : Yields cs (pattern d) (Tree.Sited cs) := by
  unfold pattern
  refine .bind startHere_yields fun _ hstart => .skip fun _ => .ite (fun _ => ?_) fun _ =>
    .skip fun _ => .ite (fun _ => ?_) fun _ => bindingName_yields
  · exact .bind (withRest_yields propertyPattern_yields propertyRest_yields) fun _ hitems =>
      .skip fun _ => finish_yields hstart trivial hitems
  · exact .bind (withRest_yields arrayItem_yields restPattern_yields) fun _ hitems =>
      .skip fun _ => finish_yields hstart trivial hitems

/-! ## Parameters -/

theorem decorators_yields : Yields cs (decorators d) (Tree.SitedAll cs) := by
  unfold decorators
  exact many_yields (.skip fun _ => .single (within_yields (hd.yields _)))

instance decorators_keeps : Keeps cs (decorators d) := decorators_yields.keeps

theorem parameter_yields : Yields cs (parameter d) (Tree.Sited cs) := by
  unfold parameter
  refine .bind startHere_yields fun _ hstart => .bind decorators_yields fun _ hdecs =>
    .skip fun _ => .skip fun _ => .skip fun _ => .bind (hd.yields _) fun _ hp => .skip fun _ =>
      .when (.bind ascribedType_yields fun _ htypes => .bind initializer_yields fun _ hvalue => ?_)
  exact finish_yields hstart trivial (by simp [hdecs, hp, htypes, hvalue])

theorem receiverType_yields : Yields cs (receiverType d) (Tree.SitedAll cs) := by
  unfold receiverType
  exact .skip fun _ => .bind ascribedType_yields fun _ htypes => .skip fun _ =>
    .when (.pure htypes)

theorem parameters_yields : Yields cs (parameters d) fun ps => Tree.SitedAll cs ps.nodes := by
  unfold parameters
  refine .skip fun _ => .skip fun _ => ?_
  extract_lets behind
  have hbehind : ∀ hasThis, Yields cs (behind hasThis) fun ps => Tree.SitedAll cs ps.nodes := by
    intro hasThis
    unfold behind
    extract_lets items
    have hitems : ∀ receiver, Tree.SitedAll cs receiver →
        Yields cs (items receiver) fun ps => Tree.SitedAll cs ps.nodes := fun _ hreceiver =>
      .bind (withRest_yields parameter_yields restPattern_yields) fun _ hnodes => .skip fun _ =>
        .pure (by simp [hreceiver, hnodes])
    exact .ite (fun _ => .bind receiverType_yields hitems) fun _ => .bind .nil hitems
  exact .ite (fun _ => .skip hbehind) fun _ => .skip hbehind

/-! ## Signatures -/

omit hd in
instance splitAngle_keeps : Keeps cs splitAngle :=
  ⟨isAt_yields rfl relexSingle_yieldsIf (.pure trivial)⟩

theorem typeArguments_yields : Yields cs (typeArguments d) (Tree.SitedAll cs) := by
  unfold typeArguments
  exact .skip fun _ => .bind (between_yields (hd.yields _)) fun _ htypes => .skip fun _ =>
    .pure htypes

theorem optionalTypeArguments_yields :
    Yields cs (optionalTypeArguments d) (Tree.SitedAll cs) := by
  unfold optionalTypeArguments
  exact .skip fun _ => .skip fun _ => .ite (fun _ => typeArguments_yields) fun _ => .nil

theorem typeParameter_yields : Yields cs (typeParameter d) (Tree.Sited cs) := by
  unfold typeParameter
  refine .bind startHere_yields fun _ hstart => .skip fun _ => .skip fun _ =>
    .bind bindingName_yields fun _ hname => .bind typeBehind_yields fun _ hbound =>
      .bind typeBehind_yields fun _ hvalue => ?_
  exact finish_yields hstart trivial (by simp [hname, hbound, hvalue])

theorem typeParameters_yields : Yields cs (typeParameters d) (Tree.SitedAll cs) := by
  unfold typeParameters
  exact .skip fun _ => .skip fun _ => .ite (fun _ => .bind (between_yields typeParameter_yields)
    fun _ hps => .skip fun _ => .pure hps) fun _ => .nil

theorem typeOrPredicate_yields : Yields cs (typeOrPredicate d) (Tree.Sited cs) := by
  unfold typeOrPredicate
  exact .bind startHere_yields fun _ hstart => .skip fun _ => .skip fun _ => .ite (fun _ =>
    .skip fun _ => .skip fun _ => .bind (hd.yields _) fun _ ht =>
      finish_yields hstart trivial (by simp [ht])) fun _ => hd.yields _

theorem returnType_yields : Yields cs (returnType d) (Tree.SitedAll cs) := by
  unfold returnType
  exact .skip fun _ => .ite (fun _ => .skip fun _ => .ite (fun _ => .single typeOrPredicate_yields)
    fun _ => .nil) fun _ => .nil

theorem signature_yields : Yields cs (signature d) fun ps => Tree.SitedAll cs ps.nodes := by
  unfold signature
  exact .bind typeParameters_yields fun _ hgenerics => .bind parameters_yields fun _ hps =>
    .bind returnType_yields fun _ hresult => .pure (by simp [hgenerics, hps, hresult])

/-! ## Members of object types -/

omit hd in
instance memberEnd_keeps : Keeps cs memberEnd := by unfold memberEnd; infer_instance

omit hd in
instance isIndexSignature_stays : Stays isIndexSignature := looks_stays _

theorem indexKey_yields : Yields cs (indexKey d) (Tree.Sited cs) := by
  unfold indexKey
  exact .bind startHere_yields fun _ hstart => .bind bindingName_yields fun _ hname =>
    .bind ascribedType_yields fun _ htypes =>
      finish_yields hstart trivial (by simp [hname, htypes])

theorem indexParts_yields : Yields cs (indexParts d) (Tree.SitedAll cs) := by
  unfold indexParts
  exact .bind (between_yields indexKey_yields) fun _ hkeys => .skip fun _ => .skip fun _ =>
    .skip fun _ => .bind ascribedType_yields fun _ hvalues => .pure (by simp [hkeys, hvalues])

theorem accessorParts_yields (isWrong : Parameters → Bool) :
    Yields cs (accessorParts d isWrong) (Tree.SitedAll cs) := by
  unfold accessorParts
  exact .bind propertyKey_yields fun _ hkey => .bind signature_yields fun _ hps => .skip fun _ =>
    .pure (by simp [hkey, hps])

theorem propertyParts_yields : Yields cs (propertyParts d) (Tree.SitedAll cs) := by
  unfold propertyParts
  refine .bind propertyKey_yields fun _ hkey => .skip fun _ => .skip fun _ => .ite (fun _ => ?_)
    fun _ => ?_
  · exact .bind signature_yields fun _ hps => .pure (by simp [hkey, hps])
  · exact .bind ascribedType_yields fun _ htypes => .pure (by simp [hkey, htypes])

theorem memberParts_yields : Yields cs (memberParts d) (Tree.SitedAll cs) := by
  have hsignature : Yields cs (do pure (← signature d).nodes) (Tree.SitedAll cs) :=
    .bind signature_yields fun _ hps => .pure hps
  unfold memberParts
  refine .skip fun _ => .skip fun _ => .ite (fun _ => hsignature) fun _ => .skip fun _ =>
    .ite (fun _ => .skip fun _ => hsignature) fun _ => .skip fun _ => .skip fun _ =>
      .ite (fun _ => accessorParts_yields _) fun _ => .skip fun _ =>
        .ite (fun _ => accessorParts_yields _) fun _ => .skip fun _ => .skip fun _ => ?_
  exact .ite (fun _ => indexParts_yields) fun _ => propertyParts_yields

omit hd in
theorem memberFrom_yields {parts : P (List Tree)} (hparts : Yields cs parts (Tree.SitedAll cs)) :
    Yields cs (memberFrom parts) (Tree.Sited cs) := by
  unfold memberFrom
  exact .bind startHere_yields fun _ hstart => .bind hparts fun _ hts => .skip fun _ =>
    finish_yields hstart trivial hts

theorem typeMembers_yields : Yields cs (typeMembers d) (Tree.SitedAll cs) := by
  unfold typeMembers
  exact .skip fun _ => .bind (upTo_yields (memberFrom_yields memberParts_yields)) fun _ hmembers =>
    .skip fun _ => .pure hmembers

omit hd in
instance isMappedType_stays : Stays isMappedType := looks_stays _

omit hd in
instance signedMark_keeps (mark : String) : Keeps cs (signedMark mark) := by
  unfold signedMark; infer_instance

theorem mappedType_yields : Yields cs (mappedType d) (Tree.SitedAll cs) := by
  unfold mappedType
  exact .skip fun _ => .skip fun _ => .skip fun _ => .bind bindingName_yields fun _ hkey =>
    .skip fun _ => .bind (hd.yields _) fun _ hkeys => .bind typeBehind_yields fun _ hnames =>
      .skip fun _ => .skip fun _ => .bind typeBehind_yields fun _ hvalues => .skip fun _ =>
        .skip fun _ => .pure (by simp [hkey, hkeys, hnames, hvalues])

/-! ## Tuples, templates, names -/

theorem tupleItem_yields : Yields cs (tupleItem d) (Tree.Sited cs) := by
  unfold tupleItem
  refine .skip fun _ => .skip fun _ => ?_
  extract_lets item
  have hitem : ∀ u, Yields cs (item u) (Tree.Sited cs) := fun _ => hd.yields _
  exact .ite (fun _ => .skip fun _ => .skip fun _ => .when (.skip hitem)) fun _ => hitem ()

theorem templateTypesFrom_yields (n : Nat) :
    Yields cs (templateTypesFrom d n) (Tree.SitedAll cs) := by
  induction n with
  | zero => exact .fail
  | succ n ih =>
    unfold templateTypesFrom
    refine .bind (hd.yields _) fun first hfirst => ?_
    extract_lets rest
    have hrest : ∀ u, Yields cs (rest u) (Tree.SitedAll cs) := fun _ => .skip fun t => by
      cases hk : t.kind with
      | template starts ends cooked =>
        cases starts with
        | true => exact .fail
        | false => exact .skip fun _ => .ite (fun _ => .pure (by simp [hfirst])) fun _ =>
            ih.bind fun _ hts => .pure (by simp [hfirst, hts])
      | _ => exact .fail
    exact isAt_yields rfl (relexTail_yieldsIf.bind hrest) (hrest ())

omit hd in
instance dottedNamesFrom_keeps (n : Nat) : Keeps cs (dottedNamesFrom n) := by
  induction n with
  | zero => exact .fail
  | succ n ih => unfold dottedNamesFrom; infer_instance

theorem typeName_yields : Yields cs (typeName d) (Tree.SitedAll cs) := by
  unfold typeName
  exact .skip fun _ => .skip fun _ => .skip fun _ => .ite (fun _ => .nil) fun _ =>
    optionalTypeArguments_yields

omit hd in
theorem Seen.lt_of_isWord {t : Token} (h : Seen cs t) (hword : t.isWord = true) :
    t.start < byteCount cs := by
  refine h.start_lt fun hk => ?_
  simp [Token.isWord, hk] at hword

theorem namedType_yields : Yields cs (namedType d) (Tree.SitedAll cs) := by
  unfold namedType
  refine .bind peek_yields fun t ht => .skip fun _ => .ite (fun hword => ?_) fun _ => .fail
  refine .skip fun _ => .bind (finish_yields ht.start_le (ht.lt_of_isWord hword) (by simp))
    fun _ hname => .bind typeName_yields fun _ htypes => .pure ?_
  split <;> simp [hname, htypes]

theorem importOptions_yields : Yields cs (importOptions d) (Tree.SitedAll cs) := by
  unfold importOptions
  refine .skip fun _ => .ite (fun _ => .skip fun _ => ?_) fun _ => .nil
  extract_lets options
  have hoptions : ∀ ts, Tree.SitedAll cs ts → Yields cs (options ts) (Tree.SitedAll cs) :=
    fun _ hts => .skip fun _ => .pure hts
  exact .ite (fun _ => .bind (hd.yields _) fun _ he => .bind (.pure (by simp [he])) hoptions)
    fun _ => .bind .nil hoptions

theorem importType_yields : Yields cs (importType d) (Tree.SitedAll cs) := by
  unfold importType
  exact .skip fun _ => .skip fun _ => .bind (hd.yields _) fun _ hsource =>
    .bind importOptions_yields fun _ hoptions => .skip fun _ => .bind typeName_yields
      fun _ htypes => .pure (by simp [hsource, hoptions, htypes])

theorem valueType_yields : Yields cs (valueType d) (Tree.SitedAll cs) := by
  unfold valueType
  exact .skip fun _ => .ite (fun _ => importType_yields) fun _ => .skip fun _ =>
    .ite (fun _ => typeName_yields) fun _ => .bind referenceName_yields fun _ hname =>
      .bind typeName_yields fun _ htypes => .pure (by simp [hname, htypes])

omit hd in
theorem tokenType_yields : Yields cs tokenType (Tree.SitedAll cs) := .skip fun _ => .nil

/-- A type that starts at the current token. -/
theorem simpleType_yields : Yields cs (simpleType d) (Tree.SitedAll cs) := by
  unfold simpleType
  refine .skip fun t => .skip fun next => ?_
  split
  case h_4 => exact .skip fun _ => .ite (fun _ => .nil) fun _ => .skip templateTypesFrom_yields
  case h_5 =>
    split
    case h_1 => exact .skip fun _ => .ite (fun _ => mappedType_yields) fun _ => typeMembers_yields
    case h_2 => exact .bind (between_yields tupleItem_yields) fun _ hitems => .pure hitems
    case h_3 =>
      exact .skip fun _ => .bind (hd.yields _) fun _ ht => .skip fun _ => .pure (by simp [ht])
    case h_4 =>
      exact .skip fun _ => .skip fun _ => .skip fun _ => .ite (fun _ => tokenType_yields) fun _ => .fail
    case h_5 =>
      exact .skip fun _ => .skip fun _ => .ite (fun _ => .nil) fun _ => .single (hd.yields _)
    case h_6 => exact .skip fun _ => .single (hd.yields _)
    case h_7 => exact tokenType_yields
    case h_8 => exact .fail
  case h_6 =>
    split
    case h_5 => exact .skip fun _ => .skip fun _ => .ite (fun _ => .nil) fun _ => typeBehind_yields
    case h_6 => exact .skip fun _ => valueType_yields
    case h_7 => exact importType_yields
    case h_8 =>
      exact .ite (fun _ => .skip fun _ => .skip fun _ => typeBehind_yields) fun _ => namedType_yields
    case h_9 => exact namedType_yields
    all_goals exact tokenType_yields
  case h_7 => exact .fail
  all_goals exact tokenType_yields

/-! ## Operators between types -/

theorem typeSuffixesFrom_yields (n : Nat) : Yields cs (typeSuffixesFrom d n) (Tree.SitedAll cs) := by
  induction n with
  | zero => exact .fail
  | succ n ih =>
    unfold typeSuffixesFrom
    refine .skip fun _ => .ite (fun _ => .nil) fun _ => .ite (fun _ => .skip fun _ => ih) fun _ =>
      .ite (fun _ => .skip fun _ => .ite (fun _ => .nil) fun _ => .skip fun _ => ih) fun _ =>
        .ite (fun _ => .skip fun _ => .skip fun _ => ?_) fun _ => .nil
    extract_lets rest
    have hrest : ∀ index, Tree.SitedAll cs index → Yields cs (rest index) (Tree.SitedAll cs) :=
      fun _ hindex => .skip fun _ => ih.bind fun _ hts => .pure (by simp [hindex, hts])
    exact .ite (fun _ => .bind .nil hrest) fun _ => .bind (hd.yields _) fun _ ht =>
      .bind (.pure (by simp [ht])) hrest

theorem inferBound_yields : Yields cs (inferBound d) (Tree.SitedAll cs) := by
  unfold inferBound
  refine .skip fun _ => .ite (fun _ => .skip fun _ => ?_) fun _ => .nil
  refine .bind (attempt_yields (Q := Tree.Sited cs) ?_) fun bound hbound => .pure ?_
  · exact .skip fun _ => .bind (within_yields (hd.yields _)) fun _ ht => .skip fun _ =>
      .ite (fun _ => .fail) fun _ => .pure ht
  · cases bound with
    | none => exact Tree.sitedAll_nil
    | some t => simpa using hbound t rfl

theorem typeOperand_yields : Yields cs (typeOperand d) (Tree.Sited cs) := by
  unfold typeOperand
  refine .bind startHere_yields fun start hstart => .skip fun _ => .ite (fun _ => ?_) fun _ =>
    .skip fun _ => .ite (fun _ => ?_) fun _ => ?_
  · exact .skip fun _ => .bind (hd.yields _) fun _ ht => finish_yields hstart trivial (by simp [ht])
  · exact .bind bindingName_yields fun _ hname => .bind inferBound_yields fun _ hbound =>
      finish_yields hstart trivial (by simp [hname, hbound])
  · refine .bind (within_yields ?_) fun _ hparts => finish_yields hstart trivial hparts
    exact .bind simpleType_yields fun _ hfirst => .skip fun n => .bind (typeSuffixesFrom_yields n)
      fun _ hrest => .pure (by simp [hfirst, hrest])

omit hd in
theorem typesBetween_yields (operator : String) {operand : P (List Tree)}
    (hoperand : Yields cs operand (Tree.SitedAll cs)) :
    Yields cs (typesBetween operator operand) (Tree.SitedAll cs) := by
  unfold typesBetween
  exact .skip fun _ => hoperand.bind fun _ hfirst => .bind (many_yields (.skip fun _ => hoperand))
    fun _ hrest => .pure (by simp [hfirst, hrest])

instance startsFunctionType_keeps : Keeps cs (startsFunctionType d) := by
  unfold startsFunctionType; infer_instance

theorem functionType_yields : Yields cs (functionType d) (Tree.SitedAll cs) := by
  unfold functionType
  exact .skip fun _ => .skip fun _ => .bind typeParameters_yields fun _ hgenerics =>
    .bind parameters_yields fun _ hps => .skip fun _ => .skip fun _ => .bind typeOrPredicate_yields
      fun _ hresult => .pure (by simp [hgenerics, hps, hresult])

theorem typeBranches_yields : Yields cs (typeBranches d) (Tree.SitedAll cs) := by
  unfold typeBranches
  refine .skip fun _ => .skip fun _ => .ite (fun _ => ?_) fun _ => .nil
  exact .skip fun _ => .bind (within_yields (hd.yields _)) fun _ hbound => .skip fun _ =>
    .bind (within_yields (hd.yields _)) fun _ hyes => .skip fun _ =>
      .bind (within_yields (hd.yields _)) fun _ hno => .pure (by simp [hbound, hyes, hno])

theorem type_yields : Yields cs (type d) (Tree.Sited cs) := by
  unfold type
  refine .bind startHere_yields fun start hstart => .skip fun _ => .ite (fun _ => ?_) fun _ => ?_
  · exact .bind functionType_yields fun _ hparts => finish_yields hstart trivial hparts
  · have htypes : Yields cs (typesBetween "|" (typesBetween "&" do pure [← d .typeOperand]))
        (Tree.SitedAll cs) :=
      typesBetween_yields _ (typesBetween_yields _ (.single (hd.yields _)))
    exact .bind htypes fun _ hts => .bind typeBranches_yields fun _ hbranches =>
      finish_yields hstart trivial (by simp [hts, hbranches])

omit hd in
instance canFollowTypeArguments_keeps : Keeps cs canFollowTypeArguments := by
  unfold canFollowTypeArguments; infer_instance

/-- The closing bracket is cut off the longest operator that it starts. -/
theorem typeArgumentsInExpression_yields :
    Yields cs (typeArgumentsInExpression d) fun ts? => ∀ ts, ts? = some ts → Tree.SitedAll cs ts := by
  unfold typeArgumentsInExpression
  refine attempt_yields ?_
  refine .skip fun _ => .skip fun _ => .bind (commas_yields (hd.yields _)) fun r htypes =>
    .skip fun _ => ?_
  extract_lets close again
  have hclose : YieldsIf cs Narrow (close ()) (Tree.SitedAll cs) :=
    relexSingle_yieldsIf.bind fun _ => .skip fun _ => .skip fun _ => .ite (fun _ => .pure htypes)
      fun _ => .fail
  have hagain : YieldsIf cs Narrow (again ()) (Tree.SitedAll cs) := by
    refine relexAngle_bind ?_
    refine isAt_yieldsIf fun b => ?_
    cases b with
    | false => exact hclose
    | true => exact .of_yields .fail
  exact isAt_yields rfl hagain .fail

end

end BaselineAudit.Script.Parser
