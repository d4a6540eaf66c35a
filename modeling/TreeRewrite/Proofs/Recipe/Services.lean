import TreeRewrite.Proofs.Traversal.Targets
import TreeRewrite.Proofs.Tree.Bundles
import TreeRewrite.Recipe.ServiceMocks

/-!
# What becomes of a file with services

`service-mocks` says what to do by a table of two levels, with a context that is filled below a
source file and emptied when the file is left.  This file says what the result is, without tables
and without a context.

## What is here

* `ServiceMocks.isRecorded` — the declarations that count: interfaces, and classes with the
  decorator of services.  `ServiceMocks.services` are the classes among them that no interface
  covers.
* `ServiceMocks.interfaceOf`, `ServiceMocks.mockOf` — what is made of a service.  That the two agree
  with the service, and so with each other, is `ServiceMocks.shapes_interfaceOf` and
  `ServiceMocks.shapes_mockOf`.
* `ServiceMocks.bundled` — what becomes of a file, and `ServiceMocks.mocked`, what becomes of a
  tree.
* `ServiceMocks.asked` — the declarations that have to have a name, and `ServiceMocks.fault?`, the
  failure if one of them has none.
* `ServiceMocks.sourceTable` — the table of the recipe; what its parts do is said by
  `ServiceMocks.targets_fileTable` and `ServiceMocks.targets_sourceTable`.
* `ServiceMocks.run_eq_bundled` — the recipe bundles every outermost file, unless one of these
  declarations has no name.
-/

set_option autoImplicit false

namespace TreeRewrite.ServiceMocks

variable (v : Vocabulary)

/-! ## The bundled file -/

/-- An interface, or a class with the decorator of services. -/
def isRecorded (t : Tree) : Bool :=
  t.is v.interfaceDeclaration || (t.is v.classDeclaration && isInjectable v t)

/-- The interfaces found in a file: what lies below an interface or a class with the decorator is
not looked at. -/
def recordedInterfaces (file : Tree) : List Tree :=
  (file.outermostBelow (isRecorded v)).filter (·.is v.interfaceDeclaration)

/-- The classes with the decorator found in a file. -/
def recordedClasses (file : Tree) : List Tree :=
  (file.outermostBelow (isRecorded v)).filter (·.is v.classDeclaration)

/-- The name of a declaration that has one. -/
def nameOf (t : Tree) : String := (t.attrStr? nameAttr).getD ""

/-- The name of an interface of the file ends with the name of the class. -/
def isCovered (file t : Tree) : Bool :=
  (recordedInterfaces v file).any fun interface =>
    (nameOf t).toList.isSuffixOf (nameOf interface).toList

/-- The classes of a file for which something is made. -/
def services (file : Tree) : List Tree :=
  (recordedClasses v file).filter fun t => !isCovered v file t

/-- The methods of a class. -/
def methods (t : Tree) : List Tree := t.childrenOf v.methodDeclaration

/-- What a method returns instead of what it should. -/
def undefinedBody : Tree := v.mkBlock [v.mkReturn (v.mkIdentifier "undefined")]

/-- The signature of a method that has a name. -/
def signatureOf (method : Tree) : Tree :=
  v.mkMethodSignature (nameOf method) (parameters v method) (returnType? v method)

/-- The method in the mock for a method that has a name. -/
def mockMethodOf (method : Tree) : Tree :=
  v.mkMethod (nameOf method) (parameters v method) (returnType? v method)
    [v.mkReturn (v.mkIdentifier "undefined")]

/-- The interface of a class. -/
def interfaceOf (t : Tree) : Tree :=
  v.mkExportedInterface ("I" ++ nameOf t) ((methods v t).map (signatureOf v))

/-- The mock of a class. -/
def mockOf (t : Tree) : Tree :=
  v.mkExportedClass (nameOf t ++ "Mock") [v.mkImplements ["I" ++ nameOf t]]
    ((methods v t).map (mockMethodOf v))

/-- The file with the mock of a class. -/
def mockFileOf (t : Tree) : Tree := v.mkSourceFile (mockFileName (nameOf t)) [mockOf v t]

/-- What becomes of a file: a bundle node that holds the file with the new interfaces behind all
that it held, and the files with the mocks. -/
def bundled (file : Tree) : Tree where
  kind := v.bundle
  children := file.withChildren ((services v file).map (interfaceOf v)) ::
    (services v file).map (mockFileOf v)

/-- The declarations that a class of a file asks for their names: itself, and its methods if it is a
service. -/
def askedBy (file t : Tree) : List Tree := t :: if isCovered v file t then [] else methods v t

/-- The declarations of a file that have to have a name, in the order in which they are asked for
it: the interfaces, then the classes, each before its methods if it is a service. -/
def asked (file : Tree) : List Tree :=
  recordedInterfaces v file ++ (recordedClasses v file).flatMap (askedBy v file)

/-- What is wrong with a declaration: it has no name. -/
def nameFault? (t : Tree) : Option RuleError :=
  if (t.attrStr? nameAttr).isNone then
    some (.shape "named declaration" s!"kind {t.kind.code}") else none

/-! ## The table -/

/-- The table in force inside files. -/
def fileTable : Table Found RuleError :=
  .mk [.mk v.interfaceDeclaration "InterfaceDeclaration"
      (.matched { visit? := some visitInterface } .empty),
    .mk v.classDeclaration "ClassDeclaration" (.matched (classHooks v) .empty)] []

/-- The table of the recipe. -/
def sourceTable : Table Found RuleError :=
  .mk [.mk v.sourceFile "SourceFile" (.matched { leave? := some (leaveFile v) } (fileTable v))] []

theorem table_builtin : table .builtin = .ok (sourceTable .builtin) := by
  rw [table, Vocabulary.ofKinds_builtin]
  rfl

theorem pass_builtin : pass .builtin = .ok (.ofTable name (sourceTable .builtin) {}) := by
  rw [pass, table_builtin]
  rfl

/-! ## Names -/

theorem declaredName_eq (t : Tree) :
    t.declaredName = Tree.unlessFault (nameFault? t) (nameOf t) := by
  rw [Tree.declaredName, nameFault?, nameOf]
  cases t.attrStr? nameAttr <;> rfl

theorem signature_eq (method : Tree) :
    signature v method = Tree.unlessFault (nameFault? method) (signatureOf v method) := by
  rw [signature, declaredName_eq, signatureOf]
  cases nameFault? method <;> rfl

theorem mockMethod_eq (method : Tree) :
    mockMethod v method = Tree.unlessFault (nameFault? method) (mockMethodOf v method) := by
  rw [mockMethod, declaredName_eq, mockMethodOf]
  cases nameFault? method <;> rfl

/-! ## Inside files -/

/-- What is wrong with a recorded declaration: an interface has no name.  Classes are asked for
their names later. -/
def recordFault? (t : Tree) : Option RuleError :=
  if t.is v.interfaceDeclaration then nameFault? t else none

/-- What has been found after a declaration. -/
def noted (found : Found) (t : Tree) : Found :=
  if t.is v.interfaceDeclaration then
    { found with interfaces := found.interfaces ++ [nameOf t] }
  else { found with classes := found.classes ++ [t] }

theorem visitInterface_of_none {t : Tree} (h : nameFault? t = none) (found : Found) :
    visitInterface t found
      = (.ok .unchanged, { found with interfaces := found.interfaces ++ [nameOf t] }) := by
  rw [visitInterface, declaredName_eq, h]
  rfl

theorem visitInterface_of_some {t : Tree} {e : RuleError} (h : nameFault? t = some e)
    (found : Found) : visitInterface t found = (.error e, found) := by
  rw [visitInterface, declaredName_eq, h]
  rfl

theorem visitClass_eq (t : Tree) (found : Found) :
    visitClass t found = (.ok .unchanged, { found with classes := found.classes ++ [t] }) := rfl

theorem targets_fileTable :
    (fileTable v).Targets (isRecorded v) fun t => do
      Action.record (recordFault? v) (noted v) t
      return t := by
  intro t
  -- interfaces, which may have no name; classes, which the filter may reject; all other nodes
  refine Table.targetsAt_cons (fun hk => ?_) fun hk => Table.targetsAt_cons (fun hk' => ?_)
    fun hk' => Table.targetsAt_nil (by simp [isRecorded, Tree.is, hk, hk'])
  · have interface : t.is v.interfaceDeclaration = true := by simp [Tree.is, hk]
    have recorded : isRecorded v t = true := by rw [isRecorded, interface, Bool.true_or]
    refine ⟨by rw [recorded]; rfl, fun _ => (Eager.apply_visit t).trans ?_⟩
    funext found
    have fault : recordFault? v t = nameFault? t := by rw [recordFault?, if_pos interface]
    cases h : nameFault? t with
    | none =>
      have record : Action.record (recordFault? v) (noted v) t found
          = (.ok (), { found with interfaces := found.interfaces ++ [nameOf t] }) := by
        rw [Action.record, fault, h, noted, if_pos interface]
      rw [map_eq_pure_bind, Eager.bind_of_ok record,
        Eager.bind_of_ok (visitInterface_of_none h found)]
      rfl
    | some e =>
      have record : Action.record (recordFault? v) (noted v) t found = (.error e, found) := by
        rw [Action.record, fault, h]
      rw [map_eq_pure_bind, Eager.bind_of_error record,
        Eager.bind_of_error (visitInterface_of_some h found)]
  · have interface : t.is v.interfaceDeclaration = false := by simp [Tree.is, hk]
    have isClass : t.is v.classDeclaration = true := by simp [Tree.is, hk']
    have recorded : isRecorded v t = isInjectable v t := by
      rw [isRecorded, interface, isClass, Bool.false_or, Bool.true_and]
    refine ⟨by rw [recorded]; rfl, fun _ => (Eager.apply_visit t).trans ?_⟩
    funext found
    have record : Action.record (recordFault? v) (noted v) t found
        = (.ok (), { found with classes := found.classes ++ [t] }) := by
      rw [Action.record, recordFault?, noted, interface]
      rfl
    rw [map_eq_pure_bind, Eager.bind_of_ok record, Eager.bind_of_ok (visitClass_eq t found)]
    rfl

/-- What has been found after the recorded declarations of a file. -/
theorem foldl_noted (distinct : v.interfaceDeclaration ≠ v.classDeclaration) (file : Tree) :
    (file.outermostBelow (isRecorded v)).foldl (noted v) {}
      = ⟨(recordedInterfaces v file).map nameOf, recordedClasses v file⟩ := by
  have all (ds : List Tree) (recorded : ∀ d ∈ ds, isRecorded v d = true) (found : Found) :
      ds.foldl (noted v) found
        = ⟨found.interfaces ++ (ds.filter (·.is v.interfaceDeclaration)).map nameOf,
          found.classes ++ ds.filter (·.is v.classDeclaration)⟩ := by
    induction ds generalizing found with
    | nil => simp
    | cons d rest ih =>
      obtain ⟨here, later⟩ := List.forall_mem_cons.mp recorded
      rw [List.foldl_cons, ih later, noted]
      cases hi : d.is v.interfaceDeclaration with
      | true =>
        have notClass : d.is v.classDeclaration = false := by
          rw [Tree.is, eq_of_beq hi]
          exact beq_eq_false_iff_ne.mpr distinct
        simp [hi, notClass]
      | false =>
        have isClass : d.is v.classDeclaration = true := by
          rw [isRecorded, hi, Bool.false_or, Bool.and_eq_true] at here
          exact here.1
        simp [hi, isClass]
  exact all _ (fun d hd => Tree.of_mem_outermostBelow hd) {}

/-- The names of the interfaces found tell which classes are covered. -/
theorem covers_eq (file t : Tree) (classes : List Tree) :
    Found.covers ⟨(recordedInterfaces v file).map nameOf, classes⟩ (nameOf t)
      = isCovered v file t := by
  rw [Found.covers, isCovered, List.any_map]
  rfl

/-! ## What is made of the classes of a file -/

theorem companion_eq (t : Tree) :
    companion v (nameOf t) t = Tree.unlessFault ((methods v t).findSome? nameFault?)
      ⟨interfaceOf v t, mockFileOf v t⟩ := by
  have signatures : (t.childrenOf v.methodDeclaration).mapM (signature v) = Tree.unlessFault
      ((methods v t).findSome? nameFault?) ((methods v t).map (signatureOf v)) := by
    rw [← Tree.mapM_unlessFault]
    exact Tree.mapM_congr fun method _ => signature_eq v method
  have mockMethods : (t.childrenOf v.methodDeclaration).mapM (mockMethod v) = Tree.unlessFault
      ((methods v t).findSome? nameFault?) ((methods v t).map (mockMethodOf v)) := by
    rw [← Tree.mapM_unlessFault]
    exact Tree.mapM_congr fun method _ => mockMethod_eq v method
  rw [companion, signatures, mockMethods]
  cases (methods v t).findSome? nameFault? <;> rfl

theorem companions_eq (file : Tree) (classes ts : List Tree) :
    companions v ⟨(recordedInterfaces v file).map nameOf, classes⟩ ts
      = Tree.unlessFault ((ts.flatMap (askedBy v file)).findSome? nameFault?)
        ((ts.filter fun t => !isCovered v file t).map fun t =>
          ⟨interfaceOf v t, mockFileOf v t⟩) := by
  induction ts with
  | nil => rfl
  | cons t rest ih =>
    rw [companions, declaredName_eq, List.flatMap_cons, askedBy, List.cons_append,
      List.findSome?_cons, List.findSome?_append]
    cases nameFault? t with
    | some e => rfl
    | none =>
      show (if Found.covers _ (nameOf t) then _ else _) = _
      rw [covers_eq, List.filter_cons]
      cases isCovered v file t with
      | true => exact ih
      | false =>
        simp only [Bool.false_eq_true, if_false, Bool.not_false, if_true, companion_eq, ih,
          List.map_cons]
        cases (methods v t).findSome? nameFault? with
        | some e => rfl
        | none => cases (rest.flatMap (askedBy v file)).findSome? nameFault? <;> rfl

/-! ## Files -/

theorem bundleOf_services (file : Tree) :
    bundleOf v file ((services v file).map fun t => ⟨interfaceOf v t, mockFileOf v t⟩)
      = bundled v file := by
  rw [bundleOf, Vocabulary.mkBundle, Bundle.toTree, Bundle.trees_ofTrees, List.map_map,
    List.map_map]
  rfl

/-- What the recipe does at a file. -/
def changeFile (t : Tree) : Action Found RuleError Tree := do
  forM (t.outermostBelow (isRecorded v)) (Action.record (recordFault? v) (noted v))
  return (← leaveFile v t).resolve t

theorem targets_sourceTable : (sourceTable v).Targets (·.is v.sourceFile) (changeFile v) := by
  intro t
  refine Table.targetsAt_cons (fun hk => ?_) fun hk => Table.targetsAt_nil (by simp [Tree.is, hk])
  refine ⟨by rw [Tree.is, hk, beq_self_eq_true]; rfl, fun _ => ?_⟩
  have inside : t.rebuilt <$> t.children.mapM (Tree.mapOutermostM (isRecorded v) fun s => do
        Action.record (recordFault? v) (noted v) s
        return s)
      = (do
        forM (t.outermostBelow (isRecorded v)) (Action.record (recordFault? v) (noted v))
        return t.mapBelow (isRecorded v) id : Action Found RuleError Tree) :=
    Tree.mapM_mapOutermostM_eq_forM (fun _ _ => rfl) t
  rw [Tree.mapBelow_id] at inside
  rw [Eager.apply_leave (targets_fileTable v)]
  exact (congrArg (· >>= _) inside).trans (bind_assoc _ _ _)

/-- What is wrong with a file: the first of the declarations asked for their names that has none. -/
def fileFault? (file : Tree) : Option RuleError := (asked v file).findSome? nameFault?

theorem findSome?_recordFault? (ts : List Tree) :
    ts.findSome? (recordFault? v)
      = (ts.filter (·.is v.interfaceDeclaration)).findSome? nameFault? := by
  induction ts with
  | nil => rfl
  | cons t rest ih =>
    rw [List.findSome?_cons, recordFault?, List.filter_cons, ih]
    cases t.is v.interfaceDeclaration <;> rfl

/-- What `leave` makes of a file in which something has been found. -/
theorem resolve_leaveFile (file : Tree) (found : Found) :
    (do return (← leaveFile v file).resolve file : Action Found RuleError Tree) found
      = (bundleOf v file <$> companions v found found.classes, {}) := by
  have left : leaveFile v file found
      = (do return .replaced (bundleOf v file (← companions v found found.classes)) :
          Action Found RuleError Rewrite) {} := rfl
  cases h : companions v found found.classes with
  | ok made =>
    rw [h] at left
    exact Eager.bind_of_ok left _
  | error e =>
    rw [h] at left
    exact Eager.bind_of_error left _

/-- **At a file**, the context is emptied, and the file is bundled unless there is a fault. -/
theorem settles_changeFile (distinct : v.interfaceDeclaration ≠ v.classDeclaration) (file : Tree) :
    (changeFile v file).Settles {} {} (fileFault? v file) (bundled v file) := by
  have left : (do return (← leaveFile v file).resolve file : Action Found RuleError Tree).Settles
      ((file.outermostBelow (isRecorded v)).foldl (noted v) {}) {}
      (((recordedClasses v file).flatMap (askedBy v file)).findSome? nameFault?)
      (bundled v file) := by
    refine ⟨{}, ?_, fun _ => rfl⟩
    rw [foldl_noted v distinct, resolve_leaveFile, companions_eq, ← bundleOf_services]
    cases ((recordedClasses v file).flatMap (askedBy v file)).findSome? nameFault? <;> rfl
  -- interfaces without a name are found on the way through the file, the others at its end
  rw [fileFault?, asked, List.findSome?_append, recordedInterfaces, ← findSome?_recordFault?]
  exact left.after_record

/-! ## Companions agree with their class -/

/-- What methods and their signatures have in common. -/
structure Shape where
  name : String
  parameters : List Tree
  returnType? : Option Tree

/-- The shape of a method. -/
def shapeOf (method : Tree) : Shape := ⟨nameOf method, parameters v method, returnType? v method⟩

/-- What may be a return type: neither a parameter nor a block nor a decorator. -/
def isType (t : Tree) : Bool := !(t.is v.parameter || t.is v.block || t.is v.decorator)

theorem isType_eq_false {t : Tree} (h : t.is v.parameter = true ∨ t.is v.block = true) :
    isType v t = false := by
  rw [isType]
  rcases h with h | h <;> simp [h]

theorem isType_of_returnType? {method type : Tree} (h : returnType? v method = some type) :
    isType v type = true := List.find?_some (p := isType v) h

/-- The shape of what is laid out like a method, with nothing but blocks behind. -/
theorem shapeOf_eq (distinct : v.parameter ≠ v.block) {method copy : Tree} {tail : List Tree}
    (layout : copy.children = parameters v method ++ (returnType? v method).toList ++ tail)
    (blocks : ∀ t ∈ tail, t.is v.block = true) :
    shapeOf v copy = ⟨nameOf copy, parameters v method, returnType? v method⟩ := by
  have params : ∀ t ∈ parameters v method, t.is v.parameter = true :=
    fun t ht => (List.mem_filter.mp ht).2
  have others : ∀ t ∈ tail, t.is v.parameter = false := fun t ht => by
    rw [Tree.is, eq_of_beq (blocks t ht)]
    exact beq_eq_false_iff_ne.mpr distinct.symm
  have noParameter : (returnType? v method).toList.filter (·.is v.parameter) = [] := by
    refine List.filter_eq_nil_iff.mpr fun type ht hp => ?_
    have typed := isType_of_returnType? v (Option.mem_toList.mp ht)
    rw [isType_eq_false v (.inl hp)] at typed
    cases typed
  have sameParameters : parameters v copy = parameters v method := by
    rw [parameters, Tree.childrenOf, layout, List.filter_append, List.filter_append, noParameter,
      List.filter_eq_self.mpr params,
      List.filter_eq_nil_iff.mpr fun t ht => by rw [others t ht]; exact Bool.false_ne_true]
    simp
  have sameType : returnType? v copy = returnType? v method := by
    have read : returnType? v copy = copy.children.find? (isType v) := rfl
    have early : (parameters v method).find? (isType v) = none :=
      List.find?_eq_none.mpr fun t ht => by rw [isType_eq_false v (.inl (params t ht))]; decide
    have late : tail.find? (isType v) = none :=
      List.find?_eq_none.mpr fun t ht => by rw [isType_eq_false v (.inr (blocks t ht))]; decide
    rw [read, layout, List.find?_append, List.find?_append, early, late]
    cases h : returnType? v method with
    | none => rfl
    | some type => simp [isType_of_returnType? v h]
  rw [shapeOf, sameParameters, sameType]

/-- The signatures in the interface of a class. -/
theorem signatures_interfaceOf (distinct : v.exportKeyword ≠ v.methodSignature) (t : Tree) :
    (interfaceOf v t).childrenOf v.methodSignature = (methods v t).map (signatureOf v) := by
  have notExport : v.mkExport.is v.methodSignature = false := beq_eq_false_iff_ne.mpr distinct
  have all : ∀ s ∈ (methods v t).map (signatureOf v), s.is v.methodSignature = true := by
    intro s hs
    obtain ⟨method, -, rfl⟩ := List.mem_map.mp hs
    exact beq_self_eq_true _
  show (v.mkExport :: (methods v t).map (signatureOf v)).filter (·.is v.methodSignature) = _
  rw [List.filter_cons, notExport, List.filter_eq_self.mpr all]
  rfl

/-- The methods of the mock of a class. -/
theorem methods_mockOf (export_ne : v.exportKeyword ≠ v.methodDeclaration)
    (heritage_ne : v.heritageClause ≠ v.methodDeclaration) (t : Tree) :
    methods v (mockOf v t) = (methods v t).map (mockMethodOf v) := by
  have notExport : v.mkExport.is v.methodDeclaration = false := beq_eq_false_iff_ne.mpr export_ne
  have notHeritage (names : List String) :
      (v.mkImplements names).is v.methodDeclaration = false := beq_eq_false_iff_ne.mpr heritage_ne
  have all : ∀ s ∈ (methods v t).map (mockMethodOf v), s.is v.methodDeclaration = true := by
    intro s hs
    obtain ⟨method, -, rfl⟩ := List.mem_map.mp hs
    exact beq_self_eq_true _
  show (v.mkExport :: v.mkImplements _ :: (methods v t).map (mockMethodOf v)).filter
    (·.is v.methodDeclaration) = _
  rw [List.filter_cons, notExport, List.filter_cons, notHeritage, List.filter_eq_self.mpr all]
  rfl

/-- **The interface of a class agrees with it** in its methods, one by one. -/
theorem shapes_interfaceOf (export_ne : v.exportKeyword ≠ v.methodSignature)
    (block_ne : v.parameter ≠ v.block) (t : Tree) :
    ((interfaceOf v t).childrenOf v.methodSignature).map (shapeOf v)
      = (methods v t).map (shapeOf v) := by
  rw [signatures_interfaceOf v export_ne, List.map_map]
  refine List.map_congr_left fun method _ => ?_
  have layout : (signatureOf v method).children
      = parameters v method ++ (returnType? v method).toList ++ [] := (List.append_nil _).symm
  exact shapeOf_eq v block_ne layout (List.forall_mem_nil _)

/-- **The mock of a class agrees with it** in its methods, one by one. -/
theorem shapes_mockOf (export_ne : v.exportKeyword ≠ v.methodDeclaration)
    (heritage_ne : v.heritageClause ≠ v.methodDeclaration) (block_ne : v.parameter ≠ v.block)
    (t : Tree) :
    (methods v (mockOf v t)).map (shapeOf v) = (methods v t).map (shapeOf v) := by
  rw [methods_mockOf v export_ne heritage_ne, List.map_map]
  refine List.map_congr_left fun method _ => ?_
  have layout : (mockMethodOf v method).children
      = parameters v method ++ (returnType? v method).toList ++ [undefinedBody v] := rfl
  refine shapeOf_eq v block_ne layout fun t ht => ?_
  rw [List.mem_singleton.mp ht]
  exact beq_self_eq_true _

/-- The only block of a method in a mock is the one that returns `undefined`. -/
theorem blocks_mockMethodOf (block_ne : v.parameter ≠ v.block) (method : Tree) :
    (mockMethodOf v method).childrenOf v.block = [undefinedBody v] := by
  have params : (parameters v method).filter (·.is v.block) = [] := by
    refine List.filter_eq_nil_iff.mpr fun t ht hb => block_ne ?_
    exact (eq_of_beq (List.mem_filter.mp ht).2).symm.trans (eq_of_beq hb)
  have noBlock : (returnType? v method).toList.filter (·.is v.block) = [] := by
    refine List.filter_eq_nil_iff.mpr fun type ht hb => ?_
    have typed := isType_of_returnType? v (Option.mem_toList.mp ht)
    rw [isType_eq_false v (.inr hb)] at typed
    cases typed
  have body : (undefinedBody v).is v.block = true := beq_self_eq_true _
  show (parameters v method ++ (returnType? v method).toList ++ [undefinedBody v]).filter
    (·.is v.block) = _
  rw [List.filter_append, List.filter_append, params, noBlock, List.filter_cons, body]
  rfl

/-! ## What is inside companions -/

/-- The kinds of the new nodes inside the interface and the mock of a class. -/
def companionKinds : List Kind :=
  [v.exportKeyword, v.methodSignature, v.heritageClause, v.expressionWithTypeArguments,
    v.identifier, v.methodDeclaration, v.block, v.returnStatement]

/-- The parameters of a method and its return type are children of it. -/
theorem mem_children_of_parts {method t : Tree}
    (h : t ∈ parameters v method ++ (returnType? v method).toList) : t ∈ method.children := by
  rcases List.mem_append.mp h with h | h
  · exact (List.mem_filter.mp h).1
  · exact List.mem_of_find?_eq_some (Option.mem_toList.mp h)

section

variable {v} {q : Tree → Prop} (new : ∀ t, t.kind ∈ companionKinds v → q t)

include new

theorem every_mkExport : v.mkExport.Every q :=
  Tree.every_iff.mpr ⟨new _ (by simp [companionKinds, Vocabulary.mkExport, Tree.leaf]), nofun⟩

theorem every_mkIdentifier (text : String) : (v.mkIdentifier text).Every q :=
  Tree.every_iff.mpr ⟨new _ (by simp [companionKinds, Vocabulary.mkIdentifier, Tree.leaf,
    Tree.withAttr]), nofun⟩

theorem every_mkImplements (name : String) : (v.mkImplements [name]).Every q := by
  refine Tree.every_iff.mpr ⟨new _ (by simp [companionKinds, Vocabulary.mkImplements, Tree.leaf,
    Tree.withAttr, Tree.withChildren]), List.forall_mem_singleton.mpr ?_⟩
  refine Tree.every_iff.mpr ⟨new _ (by simp [companionKinds]), ?_⟩
  exact List.forall_mem_singleton.mpr (every_mkIdentifier new name)

theorem every_undefinedBody : (undefinedBody v).Every q := by
  refine Tree.every_iff.mpr ⟨new _ (by simp [companionKinds, undefinedBody, Vocabulary.mkBlock]),
    List.forall_mem_singleton.mpr ?_⟩
  refine Tree.every_iff.mpr ⟨new _ (by simp [companionKinds, Vocabulary.mkReturn]), ?_⟩
  exact List.forall_mem_singleton.mpr (every_mkIdentifier new _)

variable {c : Tree} (old : ∀ method ∈ methods v c, method.EveryBelow q)

include old

/-- What holds of all new nodes, and of all nodes below the methods of a class, holds of all nodes
inside its interface. -/
theorem everyBelow_interfaceOf : (interfaceOf v c).EveryBelow q := by
  refine List.forall_mem_cons.mpr ⟨every_mkExport new, fun t ht => ?_⟩
  obtain ⟨method, hm, rfl⟩ := List.mem_map.mp ht
  refine Tree.every_iff.mpr ⟨new _ (by simp [companionKinds, signatureOf,
    Vocabulary.mkMethodSignature, Vocabulary.mkNamed, Tree.leaf, Tree.withAttr,
    Tree.withChildren]), fun u hu => ?_⟩
  exact old method hm u (mem_children_of_parts v hu)

/-- The same for its mock. -/
theorem everyBelow_mockOf : (mockOf v c).EveryBelow q := by
  refine List.forall_mem_cons.mpr ⟨every_mkExport new,
    List.forall_mem_cons.mpr ⟨every_mkImplements new _, fun t ht => ?_⟩⟩
  obtain ⟨method, hm, rfl⟩ := List.mem_map.mp ht
  refine Tree.every_iff.mpr ⟨new _ (by simp [companionKinds, mockMethodOf, Vocabulary.mkMethod,
    Vocabulary.mkNamed, Tree.leaf, Tree.withAttr, Tree.withChildren]), fun u hu => ?_⟩
  have layout : u ∈ parameters v method ++ (returnType? v method).toList ++ [undefinedBody v] := hu
  rcases List.mem_append.mp layout with hu | hu
  · exact old method hm u (mem_children_of_parts v hu)
  · exact List.mem_singleton.mp hu ▸ every_undefinedBody new

end

/-! ## The recipe -/

/-- What becomes of a tree: its outermost files are bundled. -/
def mocked (t : Tree) : Tree := t.mapOutermost (·.is v.sourceFile) (bundled v)

/-- What is wrong with a tree: the first of the declarations asked for their names in its outermost
files that has none. -/
def fault? (t : Tree) : Option RuleError :=
  ((t.outermost (·.is v.sourceFile)).flatMap (asked v)).findSome? nameFault?

theorem rewrite_sourceTable (distinct : v.interfaceDeclaration ≠ v.classDeclaration) (t : Tree) :
    (sourceTable v).rewrite {} t = Tree.unlessFault (fault? v t) (mocked v t) := by
  rw [(targets_sourceTable v).rewrite_unlessFault (settles_changeFile v distinct), fault?,
    Tree.findSome?_flatMap]
  rfl

theorem distinct_builtin :
    Vocabulary.builtin.interfaceDeclaration ≠ Vocabulary.builtin.classDeclaration := by
  decide

/-- **The recipe bundles files.**  Over the built-in kinds, the recipe makes of every tree the tree
whose outermost files are bundled with mocks for their services, unless one of the declarations that
are asked for their names has none.  The interface and the mock of a class have the methods of the
class, with its parameters and return types, in its order; and all that those of the mock do is to
return `undefined`. -/
theorem run_eq_bundled :
    (∃ pass, ServiceMocks.pass .builtin = .ok pass ∧
      ∀ t, pass.run t = Tree.unlessFault (fault? .builtin t) (mocked .builtin t)) ∧
    ∀ t, ((interfaceOf .builtin t).childrenOf Vocabulary.builtin.methodSignature).map
        (shapeOf .builtin) = (methods .builtin t).map (shapeOf .builtin) ∧
      (methods .builtin (mockOf .builtin t)).map (shapeOf .builtin)
        = (methods .builtin t).map (shapeOf .builtin) ∧
      ∀ method ∈ methods .builtin (mockOf .builtin t),
        method.childrenOf Vocabulary.builtin.block = [undefinedBody .builtin] := by
  refine ⟨⟨_, pass_builtin, rewrite_sourceTable .builtin distinct_builtin⟩, fun t => ?_⟩
  have block_ne : Vocabulary.builtin.parameter ≠ Vocabulary.builtin.block := by decide
  refine ⟨shapes_interfaceOf .builtin (by decide) block_ne t,
    shapes_mockOf .builtin (by decide) (by decide) block_ne t, fun method hm => ?_⟩
  rw [methods_mockOf .builtin (by decide) (by decide)] at hm
  obtain ⟨original, -, rfl⟩ := List.mem_map.mp hm
  exact blocks_mockMethodOf .builtin block_ne original

/-- Of two services with one method each, an interface of the file covers the second, so an
interface and a mock are made for the first.  A class without the decorator is left alone, and a
service without a name is refused. -/
theorem run_eq_bundled_store :
    let word (text : String) : Tree := ⟨⟨71⟩, [("text", .str text)], []⟩
    let named (name : String) : Fields := [("name", .str name)]
    let injectable : Tree := ⟨⟨147⟩, [], [⟨⟨181⟩, [], [word "Injectable"]⟩]⟩
    let key : Tree := ⟨⟨146⟩, named "key", []⟩
    let string : Tree := ⟨⟨136⟩, [], []⟩
    let method (body : List Tree) : Tree :=
      ⟨⟨151⟩, named "load", [key, string, ⟨⟨207⟩, [], body⟩]⟩
    let store : Tree := ⟨⟨229⟩, named "Store", [injectable, method []]⟩
    let log : Tree := ⟨⟨229⟩, named "Log", [injectable, method []]⟩
    let old : List Tree :=
      [store, log, ⟨⟨230⟩, named "ILog", []⟩, ⟨⟨229⟩, named "Plain", [method []]⟩]
    let interface : Tree :=
      ⟨⟨230⟩, named "IStore", [⟨⟨84⟩, [], []⟩, ⟨⟨150⟩, named "load", [key, string]⟩]⟩
    let heritage : Tree :=
      ⟨⟨259⟩, [("token", .str "implements")], [⟨⟨201⟩, [], [word "IStore"]⟩]⟩
    let mock : Tree := ⟨⟨229⟩, named "StoreMock",
      [⟨⟨84⟩, [], []⟩, heritage, method [⟨⟨219⟩, [], [word "undefined"]⟩]]⟩
    let file (name : String) (statements : List Tree) : Tree :=
      ⟨⟨265⟩, [("fileName", .str name)], statements⟩
    ∃ pass, ServiceMocks.pass .builtin = .ok pass ∧
      pass.run (file "store.ts" old)
        = .ok ⟨⟨266⟩, [], [file "store.ts" (old ++ [interface]), file "store.mock.ts" [mock]]⟩ ∧
      pass.run (file "nameless.ts" [⟨⟨229⟩, [], [injectable]⟩])
        = .error (.shape "named declaration" "kind 229") := by
  intro word named injectable key string method store log old interface heritage mock file
  obtain ⟨⟨pass, built, run⟩, -⟩ := run_eq_bundled
  have new : isCovered .builtin (file "store.ts" old) store = false := by decide +kernel
  have covered : isCovered .builtin (file "store.ts" old) log = true := by decide +kernel
  have recorded : recordedClasses .builtin (file "store.ts" old) = [store, log] := rfl
  have right : fault? .builtin (file "store.ts" old) = none := by
    have asked : asked .builtin (file "store.ts" old)
        = [⟨⟨230⟩, named "ILog", []⟩, store, method [], log] := by
      simp only [asked, recorded, askedBy, List.flatMap_cons, List.flatMap_nil, new, covered]
      rfl
    have files : (file "store.ts" old).outermost (·.is Vocabulary.builtin.sourceFile)
        = [file "store.ts" old] := rfl
    rw [fault?, files, List.flatMap_singleton, asked]
    rfl
  have wrong : fault? .builtin (file "nameless.ts" [⟨⟨229⟩, [], [injectable]⟩])
      = some (.shape "named declaration" "kind 229") := by
    decide +kernel
  have mockFile : mockFileOf .builtin store = file "store.mock.ts" [mock] := by
    have name : mockFileName "Store" = "store.mock.ts" := by decide +kernel
    rw [mockFileOf, ← name]
    rfl
  have bundled : mocked .builtin (file "store.ts" old)
      = ⟨⟨266⟩, [], [file "store.ts" (old ++ [interface]), file "store.mock.ts" [mock]]⟩ := by
    have root : mocked .builtin (file "store.ts" old) = bundled .builtin (file "store.ts" old) :=
      rfl
    have services : services .builtin (file "store.ts" old) = [store] := by
      simp [services, recorded, new, covered]
    rw [root, bundled, services, List.map_singleton, List.map_singleton, mockFile]
    rfl
  refine ⟨pass, built, ?_, ?_⟩
  · rw [run, right, bundled]
    rfl
  · rw [run, wrong]
    rfl

end TreeRewrite.ServiceMocks
