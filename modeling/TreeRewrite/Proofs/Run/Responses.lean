import TreeRewrite.Proofs.Json.Conveyed
import TreeRewrite.Proofs.Run.Agreement

/-!
# Responses survive the wire

A response is printed with its members in the order of declaration and without those that are
absent.  Whoever parses the text gets the members in the order of their keys, and decodes the same
response from them.  What is embedded in it has to be without floats, for the text of a float may be
read as its neighbour, and other than null, for null is decoded as what is absent.

## What is here

* `Json.Embeddable` — what may be embedded in a response.
* `RunResponse.conveys_toJson`, `KindsResponse.conveys_toJson`, `ErrorResponse.conveys_toJson` —
  the values of responses convey them.
* `ErrorInfo.embeddable_details`, `Run.embeds_of_run` — what is embedded in the responses to
  failures and to runs.
* `responses_survive_printing` — **a response is read back from the text that is printed for it**.
-/

set_option autoImplicit false

namespace TreeRewrite

open Json (Conveys conveys_str conveys_uint8 conveys_uint16 conveys_count conveys_list
  conveys_record decodeMember_arranged decodeMember_arranged_nullable legible_str)

/-! ## Members that may be left out -/

section Optional

variable {key : String} {v? : Option Json}

theorem get?_optionalMember {other : String} :
    Fields.get? (optionalMember key v?) other = if other = key then v? else none := by
  cases v? with
  | none => rw [ite_self]; rfl
  | some v =>
    split
    · next same => rw [same]; exact Fields.get?_cons_self
    · next ne => exact Fields.get?_cons_ne ne

theorem keys_optionalMember (key : String) (v? : Option Json) :
    ((optionalMember key v?).map Prod.fst).Sublist [key] := by
  cases v? with
  | none => exact List.nil_sublist _
  | some v => exact List.Sublist.refl _

theorem legible_optionalMember (h : ∀ v ∈ v?, v.Legible) :
    ∀ member ∈ optionalMember key v?, member.2.Legible := by
  cases v? with
  | none => nofun
  | some v => exact List.forall_mem_singleton.mpr (h v rfl)

end Optional

namespace Json

/-- Is a value that is embedded in a response, if there is one, a value that can be held, without
floats and other than null? -/
def Embeddable (v? : Option Json) : Prop := ∀ v ∈ v?, v.Printable ∧ v ≠ .null

theorem Embeddable.legible {v? : Option Json} (h : Embeddable v?) : ∀ v ∈ v?, v.Legible :=
  fun v mem => (h v mem).1.legible

theorem Embeddable.conveys {v? : Option Json} (h : Embeddable v?) :
    ∀ v ∈ v?, (id v).Conveys .ok v ∧ id v ≠ .null :=
  fun v mem => ⟨(h v mem).1.conveys, (h v mem).2⟩

theorem conveys_str? (text? : Option String) :
    ∀ text ∈ text?, (str text).Conveys decodeString text ∧ str text ≠ .null :=
  fun text _ => ⟨conveys_str text, nofun⟩

end Json

/-! ## Failures -/

namespace ErrorInfo

theorem conveys_toJson (e : ErrorInfo) (h : Json.Embeddable e.details?) :
    e.toJson.Conveys ofJson e := by
  let members : Fields := [("code", .int e.code.toNat), ("message", .str e.message)] ++
    optionalMember "details" e.details?
  have distinct : members.Distinct := by
    have keys : (["code", "message", "details"] : List String).Nodup := by decide
    rw [Fields.Distinct, List.map_append]
    exact keys.sublist ((List.Sublist.refl _).append (keys_optionalMember ..))
  have legible : ∀ member ∈ members, member.2.Legible :=
    List.forall_mem_append.mpr ⟨by simp [legible_str, (conveys_uint8 e.code).legible],
      legible_optionalMember h.legible⟩
  have found : members.get? "details" = e.details?.map id := by
    rw [Fields.get?_append, get?_optionalMember, if_pos rfl, Option.map_id]
    rfl
  obtain ⟨details?, details, join⟩ := decodeMember_arranged_nullable distinct found h.conveys
  refine conveys_record legible ?_
  rw [decodeMember_arranged distinct rfl (conveys_uint8 e.code), details,
    decodeMember_arranged distinct rfl (conveys_str e.message)]
  exact congrArg (fun details? => Except.ok (mk e.code e.message details?)) join

/-- What is said of a failure besides its message may be embedded. -/
theorem embeddable_details (f : Failure) : Json.Embeddable (details f) := by
  rintro v mem
  cases f with
  | unknownRecipe =>
    obtain rfl := Option.some.inj mem
    refine ⟨Json.printable_member (Json.printable_arr ?_) _, nofun⟩
    exact List.forall_mem_map.mpr fun info _ => Json.printable_str info.name
  | fileNotFound path | writeFailed path =>
    obtain rfl := Option.some.inj mem
    exact ⟨Json.printable_member (Json.printable_str path) _, nofun⟩
  | _ => cases mem

end ErrorInfo

theorem ErrorResponse.conveys_toJson (r : ErrorResponse) (h : Json.Embeddable r.error.details?) :
    r.toJson.Conveys ofJson r := by
  have error := r.error.conveys_toJson h
  have distinct : Fields.Distinct [("status", .str r.status),
      ("schema_version", .str r.schemaVersion), ("error", r.error.toJson)] := by
    show (["status", "schema_version", "error"] : List String).Nodup
    decide
  refine conveys_record (by simp [legible_str, error.legible]) ?_
  rw [decodeMember_arranged distinct rfl error,
    decodeMember_arranged distinct rfl (conveys_str r.schemaVersion),
    decodeMember_arranged distinct rfl (conveys_str r.status)]
  rfl

/-! ## Runs -/

theorem OutputTree.conveys_toJson (t : OutputTree) (h : Json.Embeddable t.tree?) :
    t.toJson.Conveys ofJson t := by
  let members : Fields := [("name", .str t.name), ("nodes", .int t.nodes.toNat)] ++
    optionalMember "path" (t.path?.map .str) ++ optionalMember "tree" t.tree?
  have distinct : members.Distinct := by
    have keys : (["name", "nodes", "path", "tree"] : List String).Nodup := by decide
    rw [Fields.Distinct, List.map_append, List.map_append]
    exact keys.sublist (((List.Sublist.refl _).append (keys_optionalMember ..)).append
      (keys_optionalMember ..))
  have legible : ∀ member ∈ members, member.2.Legible :=
    List.forall_mem_append.mpr ⟨List.forall_mem_append.mpr
      ⟨by simp [legible_str, (conveys_count t.nodes).legible],
        legible_optionalMember (by simp [legible_str])⟩, legible_optionalMember h.legible⟩
  have found_path : members.get? "path" = t.path?.map .str := by
    rw [Fields.get?_append, Fields.get?_append, get?_optionalMember, get?_optionalMember,
      if_pos rfl, if_neg (by decide), Option.or_none]
    rfl
  have found_tree : members.get? "tree" = t.tree?.map id := by
    rw [Fields.get?_append, Fields.get?_append, get?_optionalMember, get?_optionalMember,
      if_pos rfl, if_neg (by decide), Option.map_id]
    rfl
  -- each of the two is decoded to something whose join is the field, present or absent
  obtain ⟨path?, path, path_join⟩ :=
    decodeMember_arranged_nullable distinct found_path (Json.conveys_str? _)
  obtain ⟨tree?, tree, tree_join⟩ :=
    decodeMember_arranged_nullable distinct found_tree h.conveys
  refine conveys_record legible ?_
  rw [decodeMember_arranged distinct rfl (conveys_str t.name),
    decodeMember_arranged distinct rfl (conveys_count t.nodes), path, tree]
  show Except.ok (mk t.name t.nodes path?.join tree?.join) = _
  rw [path_join, tree_join]

/-- A tree that is null is read as one that is absent. -/
example : OutputTree.ofJson (OutputTree.toJson ⟨"a.ts", 1, none, some .null⟩) =
    .ok ⟨"a.ts", 1, none, none⟩ := rfl

theorem RunResponse.conveys_toJson (r : RunResponse)
    (h : ∀ output ∈ r.outputs, Json.Embeddable output.tree?) : r.toJson.Conveys ofJson r := by
  have stages := conveys_list fun stage (_ : stage ∈ r.stages) => conveys_str stage
  have outputs := conveys_list fun (output : OutputTree) mem => output.conveys_toJson (h output mem)
  have distinct : Fields.Distinct [("status", .str r.status),
      ("schema_version", .str r.schemaVersion), ("stages", .arr (r.stages.map .str)),
      ("bundle_feed", .str r.bundleFeed), ("outputs", .arr (r.outputs.map OutputTree.toJson))] := by
    show (["status", "schema_version", "stages", "bundle_feed", "outputs"] : List String).Nodup
    decide
  refine conveys_record (by simp [legible_str, stages.legible, outputs.legible]) ?_
  rw [decodeMember_arranged distinct rfl (conveys_str r.bundleFeed),
    decodeMember_arranged distinct rfl outputs,
    decodeMember_arranged distinct rfl (conveys_str r.schemaVersion),
    decodeMember_arranged distinct rfl stages,
    decodeMember_arranged distinct rfl (conveys_str r.status)]
  rfl

/-! ## Listings -/

theorem KindInfo.conveys_toJson (k : KindInfo) : k.toJson.Conveys ofJson k := by
  have distinct : Fields.Distinct [("name", .str k.name), ("code", .int k.code.toNat)] := by
    show (["name", "code"] : List String).Nodup
    decide
  refine conveys_record (by simp [legible_str, (conveys_uint16 k.code).legible]) ?_
  rw [decodeMember_arranged distinct rfl (conveys_uint16 k.code),
    decodeMember_arranged distinct rfl (conveys_str k.name)]
  rfl

theorem KindsResponse.conveys_toJson (r : KindsResponse) : r.toJson.Conveys ofJson r := by
  have kinds := conveys_list fun kind (_ : kind ∈ r.kinds) => kind.conveys_toJson
  have distinct : Fields.Distinct [("status", .str r.status),
      ("schema_version", .str r.schemaVersion), ("kinds", .arr (r.kinds.map KindInfo.toJson))] := by
    show (["status", "schema_version", "kinds"] : List String).Nodup
    decide
  refine conveys_record (by simp [legible_str, kinds.legible]) ?_
  rw [decodeMember_arranged distinct rfl kinds,
    decodeMember_arranged distinct rfl (conveys_str r.schemaVersion),
    decodeMember_arranged distinct rfl (conveys_str r.status)]
  rfl

/-! ## What a run embeds in its response -/

namespace Run

variable {σ : Type} {disk : Disk (StateM σ)} {kinds : KindTable} {request : RunRequest} {s s' : σ}

/-- A run that succeeds has read a text, rewritten it and delivered what came of it. -/
theorem of_runRecipes_eq_ok {r : RunResponse} (h : runRecipes disk kinds request s = (.ok r, s')) :
    ∃ text made between, (disk.read request.input s).1 = .ok text ∧
      rewriteText kinds request text = .ok made ∧
      deliver disk kinds request.outputDir? made.2.entries between = (.ok r.outputs, s') := by
  rw [runRecipes_eq] at h
  split at h
  · cases h
  · obtain ⟨text, _, read, h⟩ := Eager.of_bind_eq_ok h
    obtain ⟨made, between, made_eq, h⟩ := Eager.of_bind_eq_ok h
    rw [finish_eq] at h
    obtain ⟨_, between, -, h⟩ := Eager.of_bind_eq_ok h
    obtain ⟨outputs, _, delivered, ⟨⟩⟩ := Eager.of_bind_eq_ok h
    exact ⟨text, made, between, congrArg Prod.fst (of_orFail_eq_ok read), congrArg Prod.fst made_eq,
      delivered⟩

/-- What a run that has read a tree embeds in its response: a value that can be held and is not
null, with no floats if there are none in the tree. -/
structure Embeds (t : Tree) (v : Json) : Prop where
  canonical : v.Canonical
  present : v ≠ .null
  float_free : t.FloatFree → v.FloatFree

/-- **What a run embeds in its response** comes of the tree that it has read, and if it writes trees
into a directory, it embeds nothing. -/
theorem embeds_of_run {r : RunResponse} (h : runRecipes disk kinds request s = (.ok r, s')) :
    ∃ text t, (disk.read request.input s).1 = .ok text ∧ Tree.read kinds text = .ok t ∧
      ∀ output ∈ r.outputs, ∀ v ∈ output.tree?, request.outputDir? = none ∧ Embeds t v := by
  obtain ⟨text, made, between, text_eq, rewritten, delivered⟩ := of_runRecipes_eq_ok h
  have known := known_of_rewriteText rewritten
  obtain ⟨t, p, result, read, built, run, rfl⟩ := of_rewriteText_eq_ok rewritten
  refine ⟨text, t, text_eq, read, fun output mem v held => ?_⟩
  cases dir? : request.outputDir? with
  | some dir =>
    rw [dir?] at delivered
    obtain ⟨files, texts⟩ := exists_encoded dir (List.forall_mem_map.mp known)
    obtain ⟨-, outputs⟩ := of_deliver_eq_ok texts delivered
    rw [outputs] at mem
    obtain ⟨entry, -, rfl⟩ := List.mem_map.mp mem
    cases held
  | none =>
    -- known trees are delivered in one way only, so this is the delivery of their values
    rw [dir?] at delivered
    obtain ⟨outputs, delivered', inlined⟩ :=
      exists_deliver_none disk between (List.forall_mem_map.mp known)
    rw [delivered] at delivered'
    cases delivered'
    obtain ⟨entry, entry_mem, value, value_eq, rfl⟩ :=
      NodeRecord.exists_of_mem_forall₂ inlined.flip mem
    obtain rfl : value = v := Option.some.inj held
    have made : entry.2 ∈ result.toBundle.trees := List.mem_map_of_mem entry_mem
    have known := known _ made
    refine ⟨rfl, ?_, Tree.toJson_ne_null known value_eq, fun float_free => ?_⟩
    · exact Tree.canonical_of_toJson known value_eq
        (Recipe.held_of_run Recipe.textual_canonical built (Tree.read_spec read).2 run _ made)
    · exact Tree.floatFree_of_toJson known value_eq
        (Recipe.held_of_run Recipe.textual_floatFree built float_free run _ made)

end Run

/-! ## Responses and their texts -/

/-- Are there no floats in the trees that a response embeds? -/
def RunResponse.FloatFree (r : RunResponse) : Prop :=
  ∀ output ∈ r.outputs, ∀ v ∈ output.tree?, v.FloatFree

/-- **Responses survive the wire.**  From the text that is printed for a response to a run, to a
failure or to the question for the kinds, the response is read again, with what was absent absent
again.  All that is asked of it is that the values embedded in it are without floats and other than
null.  Responses to failures always are like this.  Responses to runs are if the trees embedded in
them are without floats; and a run embeds no floats if there are none in the tree that it reads, or
if it writes its trees into a directory. -/
theorem responses_survive_printing :
    (∀ r : RunResponse, (∀ output ∈ r.outputs, Json.Embeddable output.tree?) →
      Json.readAs RunResponse.ofJson r.toJson.emit = .ok r) ∧
    (∀ r : KindsResponse, Json.readAs KindsResponse.ofJson r.toJson.emit = .ok r) ∧
    (∀ r : ErrorResponse, Json.Embeddable r.error.details? →
      Json.readAs ErrorResponse.ofJson r.toJson.emit = .ok r) ∧
    (∀ f : Failure, Json.readAs ErrorResponse.ofJson (ErrorResponse.ofFailure f).toJson.emit
      = .ok (.ofFailure f)) ∧
    ∀ (σ : Type) (disk : Disk (StateM σ)) (kinds : KindTable) (request : RunRequest) (s s' : σ)
      (r : RunResponse), runRecipes disk kinds request s = (.ok r, s') →
      (r.FloatFree → Json.readAs RunResponse.ofJson r.toJson.emit = .ok r) ∧
      ((request.outputDir? = none → ∀ text t, (disk.read request.input s).1 = .ok text →
        Tree.read kinds text = .ok t → t.FloatFree) → r.FloatFree) := by
  refine ⟨fun r h => Json.readAs_pretty_line (r.conveys_toJson h),
    fun r => Json.readAs_pretty_line r.conveys_toJson,
    fun r h => Json.readAs_pretty_line (r.conveys_toJson h),
    fun f => Json.readAs_pretty_line
      ((ErrorResponse.ofFailure f).conveys_toJson (ErrorInfo.embeddable_details f)),
    fun σ disk kinds request s s' r ran => ?_⟩
  obtain ⟨text, t, text_eq, read, embeds⟩ := Run.embeds_of_run ran
  constructor
  · intro float_free
    refine Json.readAs_pretty_line (r.conveys_toJson fun output mem v held => ?_)
    have embedded := (embeds output mem v held).2
    exact ⟨⟨embedded.canonical, float_free output mem v held⟩, embedded.present⟩
  · intro float_free output mem v held
    obtain ⟨alone, embedded⟩ := embeds output mem v held
    exact embedded.float_free (float_free alone text t text_eq read)

/-- A response with a tree that is embedded and one that was written, the response to a failure with
a path, and a run that embeds the tree that it has read. -/
theorem responses_survive_printing_inlined :
    let value : Json := .obj [("attrs", .obj [("fileName", .str "a.ts")]),
      ("kind", .str "SourceFile")]
    let inlined : OutputTree := { name := "a.ts", nodes := 1, tree? := some value }
    let written : OutputTree := { name := "b.ts", nodes := 3, path? := some "out/b.ts.json" }
    let response : RunResponse :=
      { stages := ["scope-to-this"], bundleFeed := "whole", outputs := [inlined, written] }
    let failed : ErrorResponse :=
      { error := ⟨3, "file not found: in.json", some (.obj [("path", .str "in.json")])⟩ }
    let disk : Disk (StateM Unit) :=
      ⟨fun _ => return .ok value.pretty, fun _ _ => return .ok (), fun _ => return .ok (),
        fun _ => return true⟩
    let request : RunRequest := ⟨"in.json", ["scope-to-this"], none, .defaults⟩
    let ran : RunResponse := { response with outputs := [inlined] }
    Json.readAs RunResponse.ofJson response.toJson.emit = .ok response ∧
    Json.readAs ErrorResponse.ofJson failed.toJson.emit = .ok failed ∧
    runRecipes disk .builtin request () = (.ok ran, ()) ∧
    Json.readAs RunResponse.ofJson ran.toJson.emit = .ok ran := by
  intro value inlined written response failed disk request ran
  let t : Tree := ⟨⟨265⟩, [("fileName", .str "a.ts")], []⟩
  have attrs : (Json.obj [("fileName", .str "a.ts")]).Printable :=
    Json.printable_member (Json.printable_str "a.ts") "fileName"
  have t_free : t.FloatFree := Tree.every_mk.mpr ⟨attrs.float_free, List.forall_mem_nil _⟩
  have value_canonical : value.Canonical := by
    refine Json.canonical_obj.mpr ⟨by simp only [Fields.Sorted]; decide, ?_⟩
    simpa using ⟨attrs.canonical, (Json.printable_str "SourceFile").canonical⟩
  have value_free : value.FloatFree := ⟨trivial, attrs.float_free, trivial, trivial⟩
  -- the value is the text that the run reads and the tree that it embeds
  have read : Tree.read .builtin value.pretty = .ok t := by
    have record : NodeRecord.ofJson value = .ok ⟨"SourceFile", [("fileName", .str "a.ts")], []⟩ :=
      rfl
    rw [Tree.read, NodeRecord.read_pretty record value_free ⟨attrs.canonical, trivial⟩]
    rfl
  have run : runRecipes disk .builtin request () = (.ok ran, ()) := by
    have prepared : Run.prepared .builtin request (.ok value.pretty) =
        .ok (["scope-to-this"], .single t) := by
      refine Run.prepared_eq_ok.mpr ⟨Bool.false_ne_true, _, rfl, ?_, rfl⟩
      rw [Run.rewriteText, read]
      rfl
    rw [Run.runRecipes_of_ok rfl prepared]
    rfl
  obtain ⟨runs, -, errors, -, runs_of⟩ := responses_survive_printing
  obtain ⟨survives, float_free⟩ := runs_of Unit disk .builtin request () () ran run
  refine ⟨runs response ?_, errors failed ?_, run, survives (float_free ?_)⟩
  · refine List.forall_mem_cons.mpr ⟨?_, List.forall_mem_singleton.mpr ?_⟩
    · rintro _ ⟨⟩
      exact ⟨⟨value_canonical, value_free⟩, by simp [value]⟩
    · rintro _ ⟨⟩
  · rintro _ ⟨⟩
    exact ⟨Json.printable_member (Json.printable_str "in.json") "path", by rintro ⟨⟩⟩
  · intro _ text u text_eq tree
    obtain rfl : value.pretty = text := Except.ok.inj text_eq
    obtain rfl := Except.ok.inj (read.symm.trans tree)
    exact t_free

end TreeRewrite
