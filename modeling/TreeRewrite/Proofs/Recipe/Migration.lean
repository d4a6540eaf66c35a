import TreeRewrite.Proofs.Traversal.Targets
import TreeRewrite.Recipe.ScopeToThis

/-!
# What becomes of a tree when scopes give way to members

`scope-to-this` says what to do by a table of three levels, with a context that is filled in
constructors and emptied when a class is left.  This file says what the result is, without tables
and without a context.

## What is here

* `ScopeToThis.isSite` — the nodes that are changed: parameters with the name of the scope, and
  accesses to members of the scope.  `ScopeToThis.migratedSite` is what becomes of them.
* `ScopeToThis.members` — the names of the members that a class comes to use, and
  `ScopeToThis.missing`, those among them that it does not declare.
* `ScopeToThis.migrated` — what becomes of a tree, if it is `ScopeToThis.wellFormed`.
* `ScopeToThis.classTable` — the table of the recipe; what its parts do is said by
  `ScopeToThis.targets_siteTable`, `ScopeToThis.targets_constructorTable` and
  `ScopeToThis.targets_classTable`.
* `ScopeToThis.run_eq_migrated` — the recipe gives the migrated tree, unless an access names no
  member.
-/

set_option autoImplicit false

namespace TreeRewrite.ScopeToThis

variable (v : Vocabulary) (options : RecipeOptions)

/-! ## The migrated tree -/

/-- A parameter with the name of the scope. -/
def isScope (t : Tree) : Bool :=
  t.is v.parameter && t.attrStr? nameAttr == some options.scopeParam

/-- A property access whose target is the identifier of the scope. -/
def isAccess (t : Tree) : Bool :=
  t.is v.propertyAccess && (t.child? 0).any fun target =>
    target.is v.identifier && target.attrStr? textAttr == some options.scopeParam

/-- A node that the recipe changes. -/
def isSite (t : Tree) : Bool := isScope v options t || isAccess v options t

/-- The member that a property access names: the text of its second child. -/
def member? (t : Tree) : Option String := (t.child? 1).bind (·.attrStr? textAttr)

/-- The parameter under its new name, with a decorator in front of its children. -/
def migratedScope (t : Tree) : Tree where
  kind := t.kind
  attrs := t.attrs.insert nameAttr (.str options.renamedParam)
  children := v.mkDecorator "Inject" [v.mkStringLiteral options.injectToken] :: t.children

/-- The same member of `this`. -/
def migratedAccess (t : Tree) : Tree := v.mkPropertyAccess v.mkThis ((member? t).getD "")

/-- What becomes of a node that the recipe changes. -/
def migratedSite (t : Tree) : Tree :=
  if isScope v options t then migratedScope v options t else migratedAccess v t

/-- What becomes of a constructor: its outermost sites are changed. -/
def migratedConstructor (t : Tree) : Tree :=
  t.mapBelow (isSite v options) (migratedSite v options)

/-- The sites in the constructors of a class, in source order. -/
def sites (t : Tree) : List Tree :=
  (t.outermostBelow (·.is v.constructor)).flatMap (·.outermostBelow (isSite v options))

/-- The accesses in the constructors of a class, in source order. -/
def accesses (t : Tree) : List Tree := (sites v options t).filter (isAccess v options)

/-- The members that the constructors of a class access, each once, as they are first seen. -/
def members (t : Tree) : List String := ((accesses v options t).filterMap member?).eraseDups

/-- The members among these that the class does not declare. -/
def missing (t : Tree) : List String :=
  (members v options t).filter fun name => !(declaredProperties v t).contains name

/-- What becomes of a class: its outermost constructors are changed, and behind all that it held it
declares what it is missing. -/
def migratedClass (t : Tree) : Tree :=
  (t.mapBelow (·.is v.constructor) (migratedConstructor v options)).withChildren
    ((missing v options t).map (v.mkPropertyDeclaration · v.mkAny))

/-- What becomes of a tree: its outermost classes are changed. -/
def migrated (t : Tree) : Tree :=
  t.mapOutermost (·.is v.classDeclaration) (migratedClass v options)

/-- The accesses that are changed somewhere in a tree, in source order. -/
def accessesIn (t : Tree) : List Tree :=
  (t.outermost (·.is v.classDeclaration)).flatMap (accesses v options)

section

variable {t : Tree}

theorem migrated_of_class (h : t.kind = v.classDeclaration) :
    migrated v options t = migratedClass v options t :=
  Tree.mapOutermost_of_pos (beq_iff_eq.mpr h)

theorem migrated_of_ne (h : t.kind ≠ v.classDeclaration) :
    migrated v options t = t.rebuilt (t.children.map (migrated v options)) :=
  Tree.mapOutermost_of_neg (beq_eq_false_iff_ne.mpr h)

theorem accessesIn_of_class (h : t.kind = v.classDeclaration) :
    accessesIn v options t = accesses v options t := by
  have root : t.is v.classDeclaration = true := beq_iff_eq.mpr h
  rw [accessesIn, Tree.outermost_of_pos root, List.flatMap_singleton]

/-- The accesses that are changed are those among the sites. -/
theorem accessesIn_eq_filter (t : Tree) : accessesIn v options t
    = ((t.outermost (·.is v.classDeclaration)).flatMap (sites v options)).filter
      (isAccess v options) := by
  rw [List.filter_flatMap]
  rfl

theorem accessesIn_of_ne (h : t.kind ≠ v.classDeclaration) :
    accessesIn v options t = t.children.flatMap (accessesIn v options) := by
  have root : t.is v.classDeclaration = false := beq_eq_false_iff_ne.mpr h
  rw [accessesIn, Tree.outermost_of_neg root, Tree.outermostBelow, List.flatMap_assoc]
  rfl

end

/-! ## The table -/

/-- The table in force inside constructors. -/
def siteTable : Table Members RuleError :=
  .mk [.mk v.parameter "Parameter" (.matched (parameterHooks v options) .empty),
    .mk v.propertyAccess "PropertyAccessExpression" (.matched (accessHooks v options) .empty)] []

/-- The table in force inside classes. -/
def constructorTable : Table Members RuleError :=
  .mk [.mk v.constructor "Constructor" (.nested (siteTable v options))] []

/-- The table of the recipe. -/
def classTable : Table Members RuleError :=
  .mk [.mk v.classDeclaration "ClassDeclaration"
    (.matched { leave? := some (leaveClass v) } (constructorTable v options))] []

theorem table_builtin : table options .builtin = .ok (classTable .builtin options) := by
  rw [table, Vocabulary.ofKinds_builtin]
  rfl

/-! ## Inside constructors -/

/-- An access without a member. -/
def noMember : RuleError := .shape "property access with a member name" "no member name"

/-- What is wrong with a site: an access names no member. -/
def siteFault? (t : Tree) : Option RuleError :=
  if isAccess v options t && (member? t).isNone then some noMember else none

/-- The members recorded after a site. -/
def recorded (members : Members) (t : Tree) : Members :=
  if isAccess v options t then (member? t).elim members members.record else members

/-- What the context hears of a site. -/
def recordSite : Tree → Action Members RuleError Unit :=
  Action.record (siteFault? v options) (recorded v options)

theorem accessThroughThis_of_some {t : Tree} {name : String} (h : member? t = some name)
    (members : Members) :
    accessThroughThis v t members
      = (.ok (.replaced (v.mkPropertyAccess v.mkThis name)), members.record name) := by
  have read : memberName t = .ok name := by
    rw [member?] at h
    rw [memberName, h]
  rw [accessThroughThis, read]
  rfl

theorem accessThroughThis_of_none {t : Tree} (h : member? t = none) (members : Members) :
    accessThroughThis v t members = (.error noMember, members) := by
  have read : memberName t = .error noMember := by
    rw [member?] at h
    rw [memberName, h]
    rfl
  rw [accessThroughThis, read]
  rfl

variable {v} in
/-- A parameter is no access. -/
theorem isAccess_eq_false (distinct : v.parameter ≠ v.propertyAccess) {t : Tree}
    (h : t.kind = v.parameter) : isAccess v options t = false := by
  have other : t.is v.propertyAccess = false := by
    rw [Tree.is, h]
    exact beq_eq_false_iff_ne.mpr distinct
  rw [isAccess, other, Bool.false_and]

theorem targets_siteTable (distinct : v.parameter ≠ v.propertyAccess) :
    (siteTable v options).Targets (isSite v options) fun t => do
      recordSite v options t
      return migratedSite v options t := by
  intro t
  -- parameters, accesses, and all other nodes
  refine Table.targetsAt_cons (fun hk => ?_) fun hk => Table.targetsAt_cons (fun hk' => ?_)
    fun hk' => Table.targetsAt_nil ?_
  · have notAccess := isAccess_eq_false options distinct hk
    have site : isSite v options t = isScopeParameter options t := by
      simp [isSite, isScope, notAccess, Tree.is, hk, isScopeParameter]
    refine ⟨congrArg pure site.symm, fun hp => (Eager.apply_visit t).trans ?_⟩
    have scope : isScope v options t = true := by
      simpa [isSite, notAccess] using hp
    have record : recordSite v options t = pure () := by
      funext members
      simp [recordSite, Action.record, siteFault?, recorded, notAccess]
      rfl
    rw [record, migratedSite, if_pos scope]
    rfl
  · have notScope : isScope v options t = false := by
      simp [isScope, Tree.is, hk]
    have site : isSite v options t = isScopeAccess v options t := by
      rw [isSite, notScope, Bool.false_or, isAccess, Tree.is, hk', beq_self_eq_true, Bool.true_and,
        isScopeAccess]
      cases t.child? 0 <;> rfl
    refine ⟨congrArg pure site.symm, fun hp => (Eager.apply_visit t).trans ?_⟩
    have access : isAccess v options t = true := by
      simpa [isSite, notScope] using hp
    rw [migratedSite, notScope, migratedAccess]
    funext members
    cases hm : member? t with
    | none =>
      have record : recordSite v options t members = (.error noMember, members) := by
        simp [recordSite, Action.record, siteFault?, access, hm]
      rw [map_eq_pure_bind, Eager.bind_of_error record,
        Eager.bind_of_error (accessThroughThis_of_none v hm members)]
    | some name =>
      have record : recordSite v options t members = (.ok (), members.record name) := by
        simp [recordSite, Action.record, siteFault?, recorded, access, hm]
      rw [map_eq_pure_bind, Eager.bind_of_ok record,
        Eager.bind_of_ok (accessThroughThis_of_some v hm members)]
      rfl
  · have kinds : t.is v.parameter = false ∧ t.is v.propertyAccess = false := by
      simp [Tree.is, hk, hk']
    rw [isSite, isScope, isAccess, kinds.1, kinds.2]
    rfl

theorem targets_constructorTable (distinct : v.parameter ≠ v.propertyAccess) :
    (constructorTable v options).Targets (·.is v.constructor) fun t => do
      forM (t.outermostBelow (isSite v options)) (recordSite v options)
      return migratedConstructor v options t := by
  intro t
  refine Table.targetsAt_cons (fun hk => ?_) fun hk => Table.targetsAt_nil (by simp [Tree.is, hk])
  refine ⟨by rw [Tree.is, hk, beq_self_eq_true]; rfl, fun _ => ?_⟩
  rw [Eager.apply_nested (targets_siteTable v options distinct),
    Tree.mapM_mapOutermostM_eq_forM fun _ _ => rfl]
  rfl

/-! ## Classes -/

/-- The class over its migrated constructors, and what the context hears of them. -/
theorem constructors_eq (t : Tree) :
    t.rebuilt <$> t.children.mapM (Tree.mapOutermostM (·.is v.constructor) fun s => do
        forM (s.outermostBelow (isSite v options)) (recordSite v options)
        return migratedConstructor v options s)
      = (do
        forM (sites v options t) (recordSite v options)
        return t.mapBelow (·.is v.constructor) (migratedConstructor v options) :
          Action Members RuleError Tree) := by
  rw [Tree.mapM_mapOutermostM_eq_forM fun _ _ => rfl, sites, Tree.forM_flatMap]

/-- What the recipe does at a class. -/
def changeClass (t : Tree) : Action Members RuleError Tree := do
  forM (sites v options t) (recordSite v options)
  let body := t.mapBelow (·.is v.constructor) (migratedConstructor v options)
  return (← leaveClass v body).resolve body

theorem targets_classTable (distinct : v.parameter ≠ v.propertyAccess) :
    (classTable v options).Targets (·.is v.classDeclaration) (changeClass v options) := by
  intro t
  refine Table.targetsAt_cons (fun hk => ?_) fun hk => Table.targetsAt_nil (by simp [Tree.is, hk])
  refine ⟨by rw [Tree.is, hk, beq_self_eq_true]; rfl, fun _ => ?_⟩
  rw [Eager.apply_leave (targets_constructorTable v options distinct), constructors_eq, bind_assoc]
  rfl

/-- Recording names one by one keeps the first of each, behind those seen before. -/
theorem foldl_record (names seen : List String) :
    names.foldl Members.record ⟨seen⟩ = ⟨seen ++ (names.removeAll seen).eraseDups⟩ := by
  induction names generalizing seen with
  | nil => simp [List.removeAll]
  | cons name rest ih =>
    -- a new name goes behind those seen, and what comes after it has to differ from it, too
    rw [List.foldl_cons, Members.record]
    by_cases h : name ∈ seen
    · rw [if_pos (List.contains_iff_mem.mpr h), ih]
      simp [List.removeAll, h]
    · have later : rest.removeAll (seen ++ [name])
          = (rest.removeAll seen).filter fun other => !other == name := by
        rw [List.removeAll, List.removeAll, List.filter_filter]
        congr 1
        funext other
        by_cases same : other = name <;> simp [same]
      rw [if_neg (fun hc => h (List.contains_iff_mem.mp hc)), ih, later]
      simp [List.removeAll, h, List.eraseDups_cons]

/-- After the sites of a class, the context holds the members that it accesses. -/
theorem foldl_recorded_sites (t : Tree) :
    (sites v options t).foldl (recorded v options) {} = ⟨members v options t⟩ := by
  have names (ss : List Tree) (seen : Members) : ss.foldl (recorded v options) seen
      = ((ss.filter (isAccess v options)).filterMap member?).foldl Members.record seen := by
    rw [List.foldl_filterMap, List.foldl_filter]
    congr 1
    funext members s
    rw [recorded]
    cases member? s <;> rfl
  have all (seen : List String) : seen.removeAll [] = seen := List.filter_eq_self.mpr fun _ _ => rfl
  rw [names, members, accesses, foldl_record, List.nil_append, all]

/-- A child of a class stays of its kind when the constructors are migrated. -/
theorem is_migratedMember (child : Tree) (kind : Kind) :
    (child.mapOutermost (·.is v.constructor) (migratedConstructor v options)).is kind
      = child.is kind := by
  rw [Tree.is, Tree.is, Tree.kind_mapOutermost (f := migratedConstructor v options) fun _ _ => rfl]

/-- A change below a class that keeps the kinds of the nodes it is made at, and the names of the
properties among them, leaves alone the names that the class declares. -/
theorem declaredProperties_mapBelow {p : Tree → Bool} {f : Tree → Tree}
    (kinds : ∀ s, p s = true → (f s).kind = s.kind)
    (names : ∀ s, p s = true → s.kind = v.propertyDeclaration →
      (f s).attrStr? nameAttr = s.attrStr? nameAttr) (t : Tree) :
    declaredProperties v (t.mapBelow p f) = declaredProperties v t := by
  have name (child : Tree) : (if (child.mapOutermost p f).is v.propertyDeclaration then
        (child.mapOutermost p f).attrStr? nameAttr else none)
      = if child.is v.propertyDeclaration then child.attrStr? nameAttr else none := by
    rw [Tree.is, Tree.kind_mapOutermost kinds, ← Tree.is]
    split
    · rename_i property
      cases hp : p child with
      | true => rw [Tree.mapOutermost_of_pos hp, names child hp (eq_of_beq property)]
      | false =>
        rw [Tree.mapOutermost_of_neg hp]
        rfl
    · rfl
  simp only [declaredProperties, Tree.childrenOf, Tree.mapBelow, Tree.children_rebuilt,
    List.filterMap_filter, List.filterMap_map, Function.comp_def, name]

/-- What `leave` makes of a class over its migrated constructors. -/
theorem resolve_declareMembers (t : Tree) :
    let body := t.mapBelow (·.is v.constructor) (migratedConstructor v options)
    (declareMembers v (members v options t) body).resolve body = migratedClass v options t := by
  intro body
  have names : declaredProperties v body = declaredProperties v t :=
    declaredProperties_mapBelow v (f := migratedConstructor v options) (fun _ _ => rfl)
      (fun _ _ _ => rfl) t
  rw [declareMembers, names, migratedClass, missing]
  cases h : (members v options t).filter fun name => !(declaredProperties v t).contains name with
  | nil => rw [List.map_nil, Tree.withChildren_nil, Rewrite.resolve]
  | cons => rfl

/-- What is wrong with a class: the first of its accesses that names no member. -/
def classFault? (t : Tree) : Option RuleError :=
  (sites v options t).findSome? (siteFault? v options)

/-- **At a class**, the context is emptied, and the class is migrated unless there is a fault. -/
theorem settles_changeClass (t : Tree) : (changeClass v options t).Settles {} {}
    (classFault? v options t) (migratedClass v options t) := by
  let body := t.mapBelow (·.is v.constructor) (migratedConstructor v options)
  have left : (do return (← leaveClass v body).resolve body : Action Members RuleError Tree).Settles
      ((sites v options t).foldl (recorded v options) {}) {} none (migratedClass v options t) := by
    rw [foldl_recorded_sites, ← resolve_declareMembers]
    exact ⟨_, rfl, fun _ => rfl⟩
  rw [classFault?, ← Option.or_none (o := (sites v options t).findSome? (siteFault? v options))]
  exact left.after_record

/-! ## The recipe -/

/-- All accesses that are changed name a member. -/
def wellFormed (t : Tree) : Bool :=
  (accessesIn v options t).all fun access => (member? access).isSome

theorem findSome?_classFault? (t : Tree) :
    (t.outermost (·.is v.classDeclaration)).findSome? (classFault? v options)
      = if wellFormed v options t then none else some noMember := by
  have faults (ss : List Tree) : ss.findSome? (siteFault? v options)
      = if (ss.filter (isAccess v options)).all fun access => (member? access).isSome then none
        else some noMember := by
    induction ss with
    | nil => rfl
    | cons s rest ih =>
      rw [List.findSome?_cons, siteFault?, List.filter_cons, ih]
      cases isAccess v options s <;> cases hm : member? s <;> simp [hm]
  rw [wellFormed, accessesIn_eq_filter, ← faults, Tree.findSome?_flatMap]
  rfl

theorem rewrite_classTable (distinct : v.parameter ≠ v.propertyAccess) (t : Tree) :
    (classTable v options).rewrite {} t
      = if wellFormed v options t then .ok (migrated v options t) else .error noMember := by
  rw [(targets_classTable v options distinct).rewrite_unlessFault (settles_changeClass v options),
    findSome?_classFault?]
  split <;> rfl

theorem pass_builtin : pass options .builtin
    = .ok (.ofTable name (classTable .builtin options) {}) := by
  rw [pass, table_builtin]
  rfl

theorem distinct_builtin : Vocabulary.builtin.parameter ≠ Vocabulary.builtin.propertyAccess := by
  decide

/-- Where the recipe succeeds, it gives the migrated tree. -/
theorem eq_migrated_of_rewrite {t t' : Tree}
    (h : (classTable .builtin options).rewrite {} t = .ok t') :
    wellFormed .builtin options t = true ∧ t' = migrated .builtin options t := by
  rw [rewrite_classTable .builtin options distinct_builtin] at h
  split at h
  · rename_i wellFormed
    exact ⟨wellFormed, (Except.ok.inj h).symm⟩
  · cases h

/-- **The recipe migrates classes.**  Over the built-in kinds, and whatever the names that it is
given, the recipe makes of every tree the migrated tree, unless one of the accesses that it changes
has no second child with a text; then it fails, and the failure is that of the node's shape. -/
theorem run_eq_migrated : ∃ pass, ScopeToThis.pass options .builtin = .ok pass ∧ ∀ t,
    pass.run t = if wellFormed .builtin options t then .ok (migrated .builtin options t)
      else .error (.shape "property access with a member name" "no member name") :=
  ⟨_, pass_builtin options, rewrite_classTable .builtin options distinct_builtin⟩

/-- A panel that takes `$scope` and uses two of its members, one of which it declares; accesses to
another target stay.  Where an access has no second child, the recipe fails. -/
theorem run_eq_migrated_panel :
    let word (text : String) : Tree := ⟨⟨71⟩, [("text", .str text)], []⟩
    let access (target : Tree) (member : String) : Tree := ⟨⟨179⟩, [], [target, word member]⟩
    let panel (param : Tree) (statements members : List Tree) : Tree :=
      ⟨⟨265⟩, [], [⟨⟨229⟩, [("name", .str "Panel")],
        ⟨⟨152⟩, [], [param, ⟨⟨207⟩, [], statements⟩]⟩ :: members⟩]⟩
    let param (name : String) (decorators : List Tree) : Tree :=
      ⟨⟨146⟩, [("name", .str name)], decorators⟩
    let property (name : String) (type : List Tree) : Tree :=
      ⟨⟨149⟩, [("name", .str name)], type⟩
    let inject : Tree :=
      ⟨⟨147⟩, [], [⟨⟨181⟩, [], [word "Inject", ⟨⟨9⟩, [("text", .str "$rootScope")], []⟩]⟩]⟩
    ∃ pass, ScopeToThis.pass {} .builtin = .ok pass ∧
      pass.run (panel (param "$scope" [])
          [access (word "$scope") "title", access (word "$scope") "items",
            access (word "$http") "get", access (word "$scope") "title"]
          [property "items" []])
        = .ok (panel (param "rootScope" [inject])
          [access ⟨⟨99⟩, [], []⟩ "title", access ⟨⟨99⟩, [], []⟩ "items",
            access (word "$http") "get", access ⟨⟨99⟩, [], []⟩ "title"]
          [property "items" [], property "title" [⟨⟨119⟩, [], []⟩]]) ∧
      pass.run (panel (param "$scope" []) [⟨⟨179⟩, [], [word "$scope"]⟩] [])
        = .error (.shape "property access with a member name" "no member name") := by
  intro word access panel param property inject
  obtain ⟨pass, built, run⟩ := run_eq_migrated {}
  refine ⟨pass, built, ?_, ?_⟩
  · rw [run]
    rfl
  · rw [run]
    rfl

end TreeRewrite.ScopeToThis
