import Mathlib.Data.List.Nodup
import TreeRewrite.Proofs.Recipe.Repetition

/-!
# Names of what is made for services

The services of a file have names of their own, and the names of their interfaces and of the files
with their mocks are made from these.  An interface has the name of its service in it, so neither is
it named like another one, nor like one that was there before, which would have covered the service.
The file with a mock keeps all of the name but the case of its first letter.

## What is here

* `Text.CaseTwins` — names that differ in the case of the first letter alone, and
  `Text.lowerFirst_eq_iff`, that only these get the same name in lower case.
* `ServiceMocks.AddsNamed` — what is true of the names of all that a file gets.
* `ServiceMocks.run_addsNamed` — **the mocks of a file have files of their own**, unless the names
  of two services are such twins.
-/

set_option autoImplicit false

namespace TreeRewrite

/-! ## Names with their first letter in lower case -/

namespace Text

/-- `CaseTwins a b` says that two names differ in the case of the first letter alone.  The capital
`i` with a dot is that of an `i` with a dot as a letter of its own behind it. -/
inductive CaseTwins : List Char → List Char → Prop
  | letter {c d : Char} (rest : List Char) (ne : c ≠ d) (same : lowerChar c = lowerChar d) :
    CaseTwins (c :: rest) (d :: rest)
  | dotted {c : Char} (rest : List Char) (same : lowerChar c = ['i']) :
    CaseTwins ('\u0130' :: rest) (c :: '\u0307' :: rest)
  | undotted {c : Char} (rest : List Char) (same : lowerChar c = ['i']) :
    CaseTwins (c :: '\u0307' :: rest) ('\u0130' :: rest)

theorem lowerChar_dotted : lowerChar '\u0130' = ['i', '\u0307'] := rfl

/-- All other letters have one letter as their lower case. -/
theorem exists_lowerChar {c : Char} (h : c ≠ '\u0130') : ∃ d, lowerChar c = [d] := by
  have other : ¬c.toNat = 0x130 := fun same => h (Char.toNat_inj.1 same)
  rw [lowerChar, if_neg other]
  split
  · exact ⟨_, rfl⟩
  · exact ⟨c, rfl⟩

theorem lowerFirst_ofList_nil : lowerFirst (String.ofList []) = String.ofList [] := by
  rw [lowerFirst, String.toList_ofList]

theorem lowerFirst_ofList_cons (c : Char) (rest : List Char) :
    lowerFirst (String.ofList (c :: rest)) = String.ofList (lowerChar c ++ rest) := by
  rw [lowerFirst, String.toList_ofList]

theorem CaseTwins.ne {a b : List Char} (twins : CaseTwins a b) : a ≠ b := by
  have dot {c : Char} (same : lowerChar c = ['i']) : c ≠ '\u0130' := by
    rintro rfl
    exact nomatch lowerChar_dotted.symm.trans same
  cases twins with
  | letter rest ne => exact fun eq => ne (List.cons.inj eq).1
  | dotted rest same => exact fun eq => dot same (List.cons.inj eq).1.symm
  | undotted rest same => exact fun eq => dot same (List.cons.inj eq).1

theorem CaseTwins.lowerFirst_eq {a b : List Char} (twins : CaseTwins a b) :
    lowerFirst (String.ofList a) = lowerFirst (String.ofList b) := by
  cases twins with
  | letter rest _ same => rw [lowerFirst_ofList_cons, lowerFirst_ofList_cons, same]
  | dotted rest same =>
    rw [lowerFirst_ofList_cons, lowerFirst_ofList_cons, same, lowerChar_dotted]
    rfl
  | undotted rest same =>
    rw [lowerFirst_ofList_cons, lowerFirst_ofList_cons, same, lowerChar_dotted]
    rfl

/-- The lower case of a first letter tells the letter up to its case. -/
theorem eq_or_caseTwins {c d : Char} {rest rest' : List Char}
    (h : lowerChar c ++ rest = lowerChar d ++ rest') :
    c :: rest = d :: rest' ∨ CaseTwins (c :: rest) (d :: rest') := by
  by_cases hc : c = '\u0130' <;> by_cases hd : d = '\u0130'
  · subst hc hd
    exact .inl (congrArg _ (List.append_cancel_left h))
  · subst hc
    obtain ⟨l, hl⟩ := exists_lowerChar hd
    rw [lowerChar_dotted, hl] at h
    obtain ⟨rfl, rfl⟩ := List.cons.inj h
    exact .inr (.dotted rest hl)
  · subst hd
    obtain ⟨l, hl⟩ := exists_lowerChar hc
    rw [lowerChar_dotted, hl] at h
    obtain ⟨rfl, rfl⟩ := List.cons.inj h
    exact .inr (.undotted rest' hl)
  · obtain ⟨l, hl⟩ := exists_lowerChar hc
    obtain ⟨l', hl'⟩ := exists_lowerChar hd
    rw [hl, hl'] at h
    obtain ⟨rfl, rfl⟩ := List.cons.inj h
    by_cases same : c = d
    · exact .inl (congrArg (· :: rest) same)
    · exact .inr (.letter _ same (hl.trans hl'.symm))

theorem lowerChar_ne_nil (c : Char) : lowerChar c ≠ [] := by
  by_cases h : c = '\u0130'
  · rw [h, lowerChar_dotted]
    exact List.cons_ne_nil _ _
  · obtain ⟨d, hd⟩ := exists_lowerChar h
    rw [hd]
    exact List.cons_ne_nil _ _

theorem eq_or_caseTwins_of_lowerFirst_eq {a b : List Char}
    (h : lowerFirst (String.ofList a) = lowerFirst (String.ofList b)) : a = b ∨ CaseTwins a b := by
  match a, b with
  | [], [] => exact .inl rfl
  | [], d :: rest =>
    rw [lowerFirst_ofList_nil, lowerFirst_ofList_cons] at h
    exact absurd (List.append_eq_nil_iff.1 (String.ofList_injective h).symm).1 (lowerChar_ne_nil d)
  | c :: rest, [] =>
    rw [lowerFirst_ofList_nil, lowerFirst_ofList_cons] at h
    exact absurd (List.append_eq_nil_iff.1 (String.ofList_injective h)).1 (lowerChar_ne_nil c)
  | c :: rest, d :: rest' =>
    rw [lowerFirst_ofList_cons, lowerFirst_ofList_cons] at h
    exact eq_or_caseTwins (String.ofList_injective h)

/-- **Only twins get the same name in lower case.** -/
theorem lowerFirst_eq_iff {a b : String} :
    lowerFirst a = lowerFirst b ↔ a = b ∨ CaseTwins a.toList b.toList := by
  constructor
  · intro h
    have same := eq_or_caseTwins_of_lowerFirst_eq (a := a.toList) (b := b.toList) (by simpa using h)
    exact same.imp_left String.toList_inj.1
  · rintro (rfl | twins)
    · rfl
    · simpa using twins.lowerFirst_eq

end Text

/-! ## Interfaces and files -/

namespace ServiceMocks

open Vocabulary (builtin)

/-- The interfaces that a file gets. -/
def newInterfaces (file : Tree) : List Tree := (services builtin file).map (interfaceOf builtin)

/-- The files with mocks that stand behind a file in its bundle. -/
def mockFiles (file : Tree) : List Tree := (services builtin file).map (mockFileOf builtin)

/-- What is true of the names of all that is made of a file: the new interfaces have names of their
own, and the files with the mocks have, unless the names of two services are twins. -/
structure AddsNamed (file b : Tree) : Prop where
  trees : (Bundle.ofTree b).trees = file.withChildren (newInterfaces file) :: mockFiles file
  interfaces_distinct : ((newInterfaces file).map (·.attrStr? nameAttr)).Nodup
  interfaces_new : ∀ interface ∈ newInterfaces file, ∀ old ∈ recordedInterfaces builtin file,
    interface.attrStr? nameAttr ≠ old.attrStr? nameAttr
  files_distinct_iff : ((mockFiles file).map (·.attrStr? fileNameAttr)).Nodup ↔
    ∀ c ∈ services builtin file, ∀ d ∈ services builtin file,
      ¬Text.CaseTwins (nameOf c).toList (nameOf d).toList

theorem trees_bundled {file : Tree} (isFile : file.kind = builtin.sourceFile) :
    (Bundle.ofTree (bundled builtin file)).trees
      = file.withChildren (newInterfaces file) :: mockFiles file := by
  have bundle_ne : builtin.sourceFile ≠ builtin.bundle := by decide
  have others : ∀ t ∈ (bundled builtin file).children, t.kind ≠ builtin.bundle := by
    refine List.forall_mem_cons.2 ⟨fun same => bundle_ne (isFile.symm.trans same), fun t ht => ?_⟩
    obtain ⟨c, -, rfl⟩ := List.mem_map.1 ht
    exact bundle_ne
  rw [Bundle.ofTree, Bundle.trees_ofTrees]
  exact Bundle.spreadAll_of_forall_ne builtin.bundle others

theorem mockFileName_eq_iff {a b : String} : mockFileName a = mockFileName b
    ↔ a = b ∨ Text.CaseTwins a.toList b.toList := by
  rw [mockFileName, mockFileName, String.append_left_inj, Text.lowerFirst_eq_iff]

/-- A new interface is named by a service that no interface of the file covers. -/
theorem name_ne_of_mem_services {file c old : Tree} (hc : c ∈ services builtin file)
    (ho : old ∈ recordedInterfaces builtin file) :
    (interfaceOf builtin c).attrStr? nameAttr ≠ old.attrStr? nameAttr := by
  intro same
  have name : nameOf old = nameOf (interfaceOf builtin c) := by rw [nameOf, ← same, nameOf]
  have covered : isCovered builtin file c = true := by
    refine List.any_eq_true.2 ⟨old, ho, ?_⟩
    rw [name]
    exact isSuffixOf_interfaceOf c
  have uncovered := (List.mem_filter.1 hc).2
  rw [covered] at uncovered
  cases uncovered

theorem addsNamed_bundled {file : Tree} (isFile : file.kind = builtin.sourceFile)
    (distinct : ((recordedClasses builtin file).map nameOf).Nodup) :
    AddsNamed file (bundled builtin file) := by
  have names : ((services builtin file).map nameOf).Nodup :=
    distinct.sublist (List.filter_sublist.map nameOf)
  refine ⟨trees_bundled isFile, ?_, fun interface hi old ho => ?_, ?_⟩
  · have named : (newInterfaces file).map (·.attrStr? nameAttr)
        = ((services builtin file).map nameOf).map fun name => some ("I" ++ name) := by
      rw [newInterfaces, List.map_map, List.map_map]
      rfl
    rw [named]
    exact names.map fun _ _ same => (String.append_right_inj "I").1 (Option.some.inj same)
  · obtain ⟨c, hc, rfl⟩ := List.mem_map.1 hi
    exact name_ne_of_mem_services hc ho
  · have named : (mockFiles file).map (·.attrStr? fileNameAttr)
        = ((services builtin file).map nameOf).map fun name => some (mockFileName name) := by
      rw [mockFiles, List.map_map, List.map_map]
      rfl
    rw [named, List.nodup_map_iff_inj_on names]
    simp only [List.forall_mem_map, Option.some.injEq, mockFileName_eq_iff]
    refine forall₄_congr fun c _ d _ => ⟨fun only twins => ?_, fun apart => ?_⟩
    · exact twins.ne (congrArg String.toList (only (.inr twins)))
    · exact fun same => same.resolve_right apart

/-- **The mocks of a file have files of their own**, unless the names of two services are twins.  If
the services that are found in a file have different names, the interfaces that it gets are named
neither like each other nor like those that were found. -/
theorem run_addsNamed {pass : Pass (Except RuleError)} {file b : Tree}
    (built : ServiceMocks.pass .builtin = .ok pass) (isFile : file.kind = builtin.sourceFile)
    (distinct : ((recordedClasses builtin file).map nameOf).Nodup) (run : pass.run file = .ok b) :
    AddsNamed file b := by
  obtain rfl : pass = Recipe.serviceMocks := Except.ok.inj (built.symm.trans pass_builtin)
  rw [Recipe.run_serviceMocks isFile] at run
  obtain ⟨-, rfl⟩ := Tree.unlessFault_eq_ok.1 run
  exact addsNamed_bundled isFile distinct

/-- A file with services of the names. -/
def serviceFile (names : List String) : Tree :=
  builtin.mkSourceFile "app.ts" (names.map fun name =>
    Vocabulary.mkNamed builtin.classDeclaration name [builtin.mkDecorator "Injectable" []])

/-- Names that begin alike are no twins. -/
theorem run_addsNamed_user :
    let file := serviceFile ["User", "Users"]
    ∃ pass b, ServiceMocks.pass .builtin = .ok pass ∧ file.kind = builtin.sourceFile ∧
      ((recordedClasses builtin file).map nameOf).Nodup ∧ pass.run file = .ok b ∧
      (Bundle.ofTree b).trees = file.withChildren (newInterfaces file) :: mockFiles file ∧
      ((mockFiles file).map (·.attrStr? fileNameAttr)).Nodup := by
  intro file
  have distinct : ((recordedClasses builtin file).map nameOf).Nodup := by decide
  have run : Recipe.serviceMocks.run file = .ok (bundled builtin file) := rfl
  have named := run_addsNamed pass_builtin rfl distinct run
  refine ⟨_, _, pass_builtin, rfl, distinct, run, named.trees, named.files_distinct_iff.2 ?_⟩
  have two : (services builtin file).map nameOf = ["User", "Users"] := rfl
  have apart : ∀ a ∈ ["User", "Users"], ∀ b ∈ ["User", "Users"],
      ¬Text.CaseTwins a.toList b.toList := by
    have only : ∀ a ∈ ["User", "Users"], ∀ b ∈ ["User", "Users"],
        Text.lowerFirst a = Text.lowerFirst b → a = b := by decide
    intro a ha b hb twins
    exact twins.ne (congrArg String.toList (only a ha b hb (Text.lowerFirst_eq_iff.2 (.inr twins))))
  rw [← two] at apart
  exact fun c hc d hd => apart _ (List.mem_map_of_mem hc) _ (List.mem_map_of_mem hd)

/-- Two services whose names are twins have different interfaces, but their mocks are in files of
the same name. -/
theorem twins_share_mock_file : ∃ pass b, ServiceMocks.pass .builtin = .ok pass ∧
    ((recordedClasses builtin (serviceFile ["Foo", "foo"])).map nameOf).Nodup ∧
    pass.run (serviceFile ["Foo", "foo"]) = .ok b ∧
    (Bundle.ofTree b).names = ["app.ts", "foo.mock.ts", "foo.mock.ts"] ∧
    ¬((mockFiles (serviceFile ["Foo", "foo"])).map (·.attrStr? fileNameAttr)).Nodup :=
  ⟨_, _, pass_builtin, by decide, rfl, rfl, by decide⟩

end ServiceMocks

end TreeRewrite
