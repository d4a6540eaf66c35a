import Mathlib.Data.List.Nodup
import TreeRewrite.Proofs.Kind.Registration
import TreeRewrite.Proofs.Tree.Bundles

/-!
# Names in a bundle

A tree that carries a name stands under it in a bundle, and one that carries none under the name of
its place.  The two kinds of names are not kept apart: a tree may carry what another one is given by
its place, and then only the first of them is found.  Nothing else can go wrong as long as no name
is carried twice.

## What is here

* `Bundle.carried`, `Bundle.placeName` — the names that trees carry, and those of places.
* `Bundle.PlacesFree`, `Bundle.Fetched` — that no tree carries the name of a place which is in use,
  and that every tree is found under the name it stands under.
* `Bundle.names_distinct_iff_placesFree` — **the one is just what it takes for the other**.
-/

set_option autoImplicit false

namespace TreeRewrite.Bundle

/-- The names that trees carry. -/
def carried (ts : List Tree) : List String := ts.filterMap (·.attrStr? fileNameAttr)

/-- The name of a place. -/
def placeName (index : Nat) : String := s!"output-{index}"

/-- Is no tree carrying the name of a place at which there is a tree that carries none? -/
def PlacesFree (ts : List Tree) : Prop :=
  ∀ (index : Nat) (t : Tree), ts[index]? = some t → t.attrStr? fileNameAttr = none →
    placeName index ∉ carried ts

/-- Is every tree found under the name at its place? -/
def Fetched (b : Bundle) : Prop :=
  ∀ (index : Nat) (t : Tree), b.trees[index]? = some t →
    ∃ name, b.names[index]? = some name ∧ b.get? name = some t

theorem placeName_inj {i j : Nat} : placeName i = placeName j ↔ i = j := by
  refine ⟨fun h => ?_, fun h => h ▸ rfl⟩
  have digits : Nat.toDigits 10 i = Nat.toDigits 10 j :=
    String.ofList_injective ((String.append_right_inj "output-").1 h)
  calc
    i = Nat.ofDigitChars 10 (Nat.toDigits 10 i) 0 := Nat.ofDigitChars_ten_toDigits.symm
    _ = Nat.ofDigitChars 10 (Nat.toDigits 10 j) 0 := by rw [digits]
    _ = j := Nat.ofDigitChars_ten_toDigits

theorem getElem?_names (ts : List Tree) (index : Nat) :
    (ofTrees ts).names[index]? = ts[index]?.map (nameAt index) := by
  simp only [names, entries_ofTrees, List.getElem?_map, List.getElem?_mapIdx, Option.map_map]
  rfl

section Places

variable {ts : List Tree} {i j : Nat} {t u : Tree}

/-- No name is carried at two places. -/
theorem ne_of_nodup_carried (distinct : (carried ts).Nodup) (ne : i ≠ j) (hi : ts[i]? = some t)
    (hj : ts[j]? = some u) {name : String} (carries : t.attrStr? fileNameAttr = some name) :
    u.attrStr? fileNameAttr ≠ some name := by
  intro carries'
  obtain ⟨i_lt, rfl⟩ := List.getElem?_eq_some_iff.1 hi
  obtain ⟨j_lt, rfl⟩ := List.getElem?_eq_some_iff.1 hj
  rw [carried, List.Nodup, List.pairwise_filterMap, List.pairwise_iff_getElem] at distinct
  rcases Nat.lt_or_gt_of_ne ne with lt | lt
  · exact distinct i j i_lt j_lt lt name carries name carries' rfl
  · exact distinct j i j_lt i_lt lt name carries' name carries rfl

/-- At two places the names are different. -/
theorem nameAt_ne (distinct : (carried ts).Nodup) (free : PlacesFree ts) (ne : i ≠ j)
    (hi : ts[i]? = some t) (hj : ts[j]? = some u) : nameAt i t ≠ nameAt j u := by
  have mem {k : Nat} {s : Tree} {name : String} (hk : ts[k]? = some s)
      (carries : s.attrStr? fileNameAttr = some name) : name ∈ carried ts :=
    List.mem_filterMap.2 ⟨s, List.mem_of_getElem? hk, carries⟩
  rw [nameAt, nameAt]
  cases ht : t.attrStr? fileNameAttr with
  | none =>
    cases hu : u.attrStr? fileNameAttr with
    | none => exact fun same => ne (placeName_inj.1 same)
    | some name =>
      rintro rfl
      exact free i t hi ht (mem hj hu)
  | some name =>
    cases hu : u.attrStr? fileNameAttr with
    | none =>
      rintro rfl
      exact free j u hj hu (mem hi ht)
    | some name' =>
      rintro rfl
      exact ne_of_nodup_carried distinct ne hi hj ht hu

theorem nodup_names (distinct : (carried ts).Nodup) (free : PlacesFree ts) :
    (ofTrees ts).names.Nodup := by
  refine List.nodup_iff_getElem?_ne_getElem?.2 fun i j lt j_lt same => ?_
  have at_j := List.getElem?_eq_getElem j_lt
  rw [at_j, getElem?_names] at same
  rw [getElem?_names] at at_j
  obtain ⟨t, hi, name_t⟩ := Option.map_eq_some_iff.1 same
  obtain ⟨u, hj, name_u⟩ := Option.map_eq_some_iff.1 at_j
  exact nameAt_ne distinct free (Nat.ne_of_lt lt) hi hj (name_t.trans name_u.symm)

/-- Where names are distinct, every tree is found. -/
theorem fetched_of_nodup (distinct : (ofTrees ts).names.Nodup) : (ofTrees ts).Fetched := by
  intro index t h
  rw [trees_ofTrees] at h
  refine ⟨nameAt index t, by rw [getElem?_names, h, Option.map_some], ?_⟩
  refine (lookup_eq_some_iff_mem distinct).2 (List.mem_of_getElem? (i := index) ?_)
  rw [entries_ofTrees, List.getElem?_mapIdx, h, Option.map_some]

/-- A tree that carries the name of a place hides the tree there, or is hidden by it. -/
theorem placesFree_of_fetched (fetched : (ofTrees ts).Fetched) : PlacesFree ts := by
  intro index t h unnamed mem
  obtain ⟨u, hu, carries⟩ := List.mem_filterMap.1 mem
  obtain ⟨index', h'⟩ := List.getElem?_of_mem hu
  have name_t : nameAt index t = placeName index := by rw [nameAt, unnamed]; rfl
  have name_u : nameAt index' u = placeName index := by rw [nameAt, carries]; rfl
  have found {k : Nat} {s : Tree} (hk : ts[k]? = some s) (name : nameAt k s = placeName index) :
      (ofTrees ts).get? (placeName index) = some s := by
    obtain ⟨_, at_k, got⟩ := fetched k s (by rwa [trees_ofTrees])
    rw [getElem?_names, hk, Option.map_some, name, Option.some.injEq] at at_k
    rwa [at_k]
  obtain rfl : t = u := Option.some.inj ((found h name_t).symm.trans (found h' name_u))
  exact nomatch unnamed.symm.trans carries

end Places

/-- **Names are distinct just if no tree carries the name of a place that is in use**, and every
tree is found under its name just then; if no name is carried twice. -/
theorem names_distinct_iff_placesFree {b : Bundle} (built : Built b)
    (distinct : (carried b.trees).Nodup) :
    (b.names.Nodup ↔ PlacesFree b.trees) ∧ (b.Fetched ↔ PlacesFree b.trees) := by
  obtain ⟨ts, rfl⟩ : ∃ ts, b = ofTrees ts := ⟨b.trees, built.ofTrees_trees.symm⟩
  rw [trees_ofTrees] at distinct ⊢
  have from_free := nodup_names distinct
  exact ⟨⟨fun h => placesFree_of_fetched (fetched_of_nodup h), from_free⟩,
    placesFree_of_fetched, fun h => fetched_of_nodup (from_free h)⟩

/-- The name of a place may be carried by a tree, as long as the tree at the place has its own. -/
theorem names_distinct_iff_placesFree_mixed :
    let named (name : String) : Tree := ⟨⟨265⟩, [(fileNameAttr, .str name)], []⟩
    let nested : Tree := ⟨⟨266⟩, [], [named "output-2", ⟨⟨266⟩, [], [.leaf ⟨265⟩]⟩]⟩
    let b := (ofTree nested).pushTree (named "a.ts")
    b.names = ["output-2", "output-1", "a.ts"] ∧ b.names.Nodup ∧ b.Fetched := by
  intro named nested b
  have free : PlacesFree b.trees := by
    intro index t h unnamed
    match index with
    | 0 => cases h; cases unnamed
    | 1 => decide
    | 2 => cases h; cases unnamed
  obtain ⟨nodup_iff, fetched_iff⟩ :=
    names_distinct_iff_placesFree (b := b) (.pushTree (.ofTree nested) _) (by decide)
  exact ⟨rfl, nodup_iff.2 free, fetched_iff.2 free⟩

/-- Two trees stand under one name if the second carries the name of the place of the first. -/
theorem place_name_is_carried :
    let named : Tree := ⟨⟨265⟩, [(fileNameAttr, .str "output-0")], []⟩
    let b := ofTree ⟨⟨266⟩, [], [.leaf ⟨265⟩, named]⟩
    Built b ∧ (carried b.trees).Nodup ∧ ¬b.names.Nodup ∧ ¬b.Fetched
      ∧ b.get? "output-0" = some (.leaf ⟨265⟩) := by
  intro named b
  refine ⟨.ofTree _, by decide, by decide, fun fetched => ?_, rfl⟩
  obtain ⟨_, ⟨⟩, found⟩ := fetched 1 named rfl
  have attrs : [] = named.attrs := congrArg Tree.attrs (Option.some.inj found)
  cases attrs

end TreeRewrite.Bundle
