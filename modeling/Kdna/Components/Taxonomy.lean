import Kdna.Container.Semver
import Kdna.Data.LongestPath
import Kdna.Data.Loop
import Kdna.Data.Reorder
import Kdna.Ir.AssetValue
import Kdna.StrictInput

/-!
# The taxonomy profile

`plainProfile` of `component-semantics.js` for a taxonomy: items with keys, and edges from a narrower
key to a broader one. Whatever the order of both, a taxonomy is accepted exactly where its items and
edges are well formed and the edges form no cycle and no path beyond the bound, and its normal form
is the same.
-/

namespace Kdna.Components

open Value Ir

/-- The kinds of a failure. -/
inductive Failure
  | content
  | limit
  | reference
  | cycle
  deriving DecidableEq

/-- `codes[kind]` -/
def Failure.code : Failure → String
  | .content => "READ_COMPONENT_CONTENT_INVALID"
  | .limit => "READ_COMPONENT_LIMIT_EXCEEDED"
  | .reference => "READ_COMPONENT_REFERENCE_INVALID"
  | .cycle => "READ_COMPONENT_GRAPH_CYCLE"

/-- `limits.items_per_component` -/
def itemsPerComponent : ℕ := 128

/-- `limits.edges_per_component` -/
def edgesPerComponent : ℕ := 1024

/-- `limits.title_utf8_bytes` -/
def titleBytes : ℕ := 256

/-- `limits.meaning_prompt_criterion_utf8_bytes` -/
def meaningBytes : ℕ := 8192

/-- `limits.taxonomy_path_edges` -/
def taxonomyPathEdges : ℕ := 64

section Shapes

/-- `value && typeof value === 'object' && !Array.isArray(value)` -/
def isRecord : Json → Bool
  | .obj _ => true
  | _ => false

/-- `/^[a-z][a-z0-9-]{0,63}$/` -/
def isItemKey (key : String) : Bool :=
  match key.toList with
  | [] => false
  | c :: cs => c.isLower && cs.length ≤ 63 && cs.all fun d => d.isLower || d.isDigit || d = '-'

/-- `ComponentItemKey` -/
def isKeyText (v : Json) : Bool := v.text?.any isItemKey

/-- `NonEmptyText`: a text with `\\S`. -/
def isNonEmptyText (v : Json) : Bool := v.text?.any fun t => t.toList.any fun c => !Semver.isBlank c

/-- `ComponentItem` -/
def isComponentItem (v : Json) : Bool :=
  closedObject v ["key", "title", "meaning"] [] && (v.prop "key").any isKeyText &&
    (v.prop "title").any isNonEmptyText && (v.prop "meaning").any isNonEmptyText

/-- `ComponentBroaderEdge` -/
def isBroaderEdge (v : Json) : Bool :=
  closedObject v ["narrowerKey", "broaderKey"] [] && (v.prop "narrowerKey").any isKeyText &&
    (v.prop "broaderKey").any isKeyText

/-- `type: array` with `maxItems` and `items` -/
def isListOf (maximum : ℕ) (isElement : Json → Bool) (v : Json) : Bool :=
  v.items?.any fun items => items.length ≤ maximum && items.all isElement

/-- `TaxonomyContent` -/
def isTaxonomyContent (v : Json) : Bool :=
  closedObject v ["items", "broader"] [] &&
    (v.prop "items").any (isListOf itemsPerComponent isComponentItem) &&
    (v.prop "broader").any (isListOf edgesPerComponent isBroaderEdge)

end Shapes

/-- The elements of a member that is an array. -/
def elementsOf (v : Json) (name : String) : List Json := ((v.prop name).bind items?).getD []

/-- A member that is a text. -/
def textOf (v : Json) (name : String) : String := ((v.prop name).bind text?).getD ""

/-- The key of an item. -/
def keyOf (item : Json) : String := textOf item "key"

/-- The keys of an edge. -/
def edgeOf (edge : Json) : String × String := (textOf edge "narrowerKey", textOf edge "broaderKey")

/-- `text(value, max)` -/
def checkText (value : Option Json) (maximum : ℕ) : Except Failure Unit :=
  match value.bind text? with
  | some t => require (t ≠ "" ∧ Semver.trim t.toList = t.toList ∧ scalarString t maximum true)
      .content
  | none => .error .content

/-- One item in the loop of `itemList`. -/
def checkItem (keys : List String) (item : Json) : Except Failure (List String) := do
  require (isItemKey (keyOf item) ∧ keyOf item ∉ keys) Failure.content
  checkText (item.prop "title") titleBytes
  checkText (item.prop "meaning") meaningBytes
  return keys ++ [keyOf item]

/-- One edge; the text of its two keys tells it from the others. -/
def checkEdge (keys : List String) (seen : List (String × String)) (edge : Json) :
    Except Failure (List (String × String)) := do
  require ((edgeOf edge).1 ∈ keys ∧ (edgeOf edge).2 ∈ keys) Failure.reference
  require ((edgeOf edge).1 ≠ (edgeOf edge).2) Failure.cycle
  require (edgeOf edge ∉ seen) Failure.content
  return seen ++ [edgeOf edge]

/-- `graph.get(key)` -/
def graph (edges : List (String × String)) (key : String) : List String :=
  (edges.filter fun e => e.1 = key).map Prod.snd

/-- The failure of a search. -/
def Failure.ofPath : PathFailure → Failure
  | .cycle => .cycle
  | .limit => .limit

/-- `compareUtf8(a.narrowerKey, b.narrowerKey) || compareUtf8(a.broaderKey, b.broaderKey)` -/
def edgeRank (edge : Json) : Lex (List ℕ × List ℕ) :=
  toLex (utf8Key (edgeOf edge).1, utf8Key (edgeOf edge).2)

/-- The normal form of a taxonomy. -/
def normalForm (content : Json) : Json :=
  .obj [("kind", .str "taxonomy"), ("items", .arr (sortByUtf8 keyOf (elementsOf content "items"))),
    ("broader", .arr ((elementsOf content "broader").insertionSort fun a b =>
      edgeRank a ≤ edgeRank b))]

/-- `plainProfile('taxonomy', content)` -/
def plainProfile (content : Json) : Except Failure Json := do
  require (isRecord content) Failure.content
  require ((elementsOf content "items").length ≤ itemsPerComponent) Failure.limit
  require ((elementsOf content "broader").length ≤ edgesPerComponent) Failure.limit
  require (isTaxonomyContent content) Failure.content
  let keys ← (elementsOf content "items").foldlM checkItem []
  let edges ← (elementsOf content "broader").foldlM (checkEdge keys) []
  let _ ← (searchAll (graph edges) taxonomyPathEdges keys).mapError Failure.ofPath
  return normalForm content

section Loops

variable {item edge content : Json} {keys : List String}

/-- What the loop asks of an item by itself. -/
structure ItemFits (item : Json) : Prop where
  key : isItemKey (keyOf item) = true
  title : checkText (item.prop "title") titleBytes = .ok ()
  meaning : checkText (item.prop "meaning") meaningBytes = .ok ()

theorem checkItem_eq_ok_iff {keys' : List String} : checkItem keys item = .ok keys' ↔
    keys' = keys ++ [keyOf item] ∧ ItemFits item ∧ keyOf item ∉ keys := by
  simp only [checkItem, bind_eq_ok_iff, require_eq_ok_iff, exists_const, pure_eq_ok, Except.ok.injEq]
  constructor
  · rintro ⟨⟨hkey, hnew⟩, _, htitle, _, hmeaning, rfl⟩
    exact ⟨rfl, ⟨hkey, htitle, hmeaning⟩, hnew⟩
  · rintro ⟨rfl, ⟨hkey, htitle, hmeaning⟩, hnew⟩
    exact ⟨⟨hkey, hnew⟩, (), htitle, (), hmeaning, rfl⟩

/-- What the loop asks of an edge by itself. -/
structure EdgeFits (keys : List String) (e : String × String) : Prop where
  narrower : e.1 ∈ keys
  broader : e.2 ∈ keys
  apart : e.1 ≠ e.2

theorem checkEdge_eq_ok_iff {seen seen' : List (String × String)} :
    checkEdge keys seen edge = .ok seen' ↔
      seen' = seen ++ [edgeOf edge] ∧ EdgeFits keys (edgeOf edge) ∧ edgeOf edge ∉ seen := by
  simp only [checkEdge, bind_eq_ok_iff, require_eq_ok_iff, exists_const, pure_eq_ok, Except.ok.injEq]
  constructor
  · rintro ⟨⟨hnarrower, hbroader⟩, hne, hnew, rfl⟩
    exact ⟨rfl, ⟨hnarrower, hbroader, hne⟩, hnew⟩
  · rintro ⟨rfl, ⟨hnarrower, hbroader, hne⟩, hnew⟩
    exact ⟨⟨hnarrower, hbroader⟩, hne, hnew, rfl⟩

/-- The keys of a taxonomy. -/
def keysOf (content : Json) : List String := (elementsOf content "items").map keyOf

/-- The edges of a taxonomy. -/
def edgesOf (content : Json) : List (String × String) := (elementsOf content "broader").map edgeOf

/-- A taxonomy is well formed, but for its paths. -/
structure WellFormed (content : Json) : Prop where
  shape : isTaxonomyContent content = true
  items : ∀ item ∈ elementsOf content "items", ItemFits item
  keys : (keysOf content).Nodup
  edges : ∀ e ∈ edgesOf content, e.1 ∈ keysOf content ∧ e.2 ∈ keysOf content
  distinct : (edgesOf content).Nodup

/-- The key `b` is a broader one of `a`. -/
def Broader (content : Json) (a b : String) : Prop := (a, b) ∈ edgesOf content

theorem mem_graph {edges : List (String × String)} {a b : String} :
    b ∈ graph edges a ↔ (a, b) ∈ edges := by
  simp [graph]

/-- The bounds of the shape are those that come first. -/
theorem isTaxonomyContent_spec (h : isTaxonomyContent content = true) : isRecord content = true ∧
    (elementsOf content "items").length ≤ itemsPerComponent ∧
      (elementsOf content "broader").length ≤ edgesPerComponent := by
  simp only [isTaxonomyContent, Bool.and_eq_true] at h
  obtain ⟨⟨hclosed, hitems⟩, hbroader⟩ := h
  have hbound {name : String} {maximum : ℕ} {isElement : Json → Bool}
      (h : (content.prop name).any (isListOf maximum isElement) = true) :
      (elementsOf content name).length ≤ maximum := by
    cases hprop : content.prop name with
    | none =>
      rw [hprop] at h
      cases h
    | some v =>
      rw [hprop, Option.any_some, isListOf] at h
      rw [elementsOf, hprop, Option.bind_some]
      cases hitems : v.items? with
      | none =>
        rw [hitems] at h
        cases h
      | some items =>
        rw [hitems, Option.any_some, Bool.and_eq_true, decide_eq_true_eq] at h
        exact h.1
  obtain ⟨⟨props, rfl⟩, -⟩ := closedObject_spec hclosed
  exact ⟨rfl, hbound hitems, hbound hbroader⟩

theorem checkItems_eq_ok_iff {items : List Json} : items.foldlM checkItem [] = .ok keys ↔
    keys = items.map keyOf ∧ (∀ item ∈ items, ItemFits item) ∧ (items.map keyOf).Nodup := by
  refine Iff.trans (foldlM_distinct_eq_ok_iff (P := ItemFits) fun _ _ _ => checkItem_eq_ok_iff) ?_
  exact and_congr_right' (and_congr_right' (and_iff_left fun _ _ => List.not_mem_nil))

theorem checkEdges_eq_ok_iff {broader : List Json} {edges : List (String × String)} :
    broader.foldlM (checkEdge keys) [] = .ok edges ↔ edges = broader.map edgeOf ∧
      (∀ e ∈ broader.map edgeOf, EdgeFits keys e) ∧ (broader.map edgeOf).Nodup := by
  refine Iff.trans (foldlM_distinct_eq_ok_iff (P := fun edge => EdgeFits keys (edgeOf edge))
    fun _ _ _ => checkEdge_eq_ok_iff) ?_
  rw [List.forall_mem_map]
  exact and_congr_right' (and_congr_right' (and_iff_left fun _ _ => List.not_mem_nil))

theorem mapError_eq_ok_iff {α ε ε' : Type} {f : ε → ε'} {x : Except ε α} {a : α} :
    x.mapError f = .ok a ↔ x = .ok a := by
  cases x <;> simp [Except.mapError]

/-- What is accepted, and what comes out. -/
theorem plainProfile_eq_ok_iff {profile : Json} : plainProfile content = .ok profile ↔
    profile = normalForm content ∧ WellFormed content ∧
      (∀ e ∈ edgesOf content, e.1 ≠ e.2) ∧
        ∃ longest, searchAll (graph (edgesOf content)) taxonomyPathEdges (keysOf content) =
          .ok longest := by
  simp only [plainProfile, bind_eq_ok_iff, require_eq_ok_iff, exists_const, pure_eq_ok,
    Except.ok.injEq, checkItems_eq_ok_iff, checkEdges_eq_ok_iff, mapError_eq_ok_iff]
  constructor
  · rintro ⟨-, -, -, hshape, _, ⟨rfl, hitems, hkeys⟩, _, ⟨rfl, hedges, hdistinct⟩, longest, hsearch,
      rfl⟩
    refine ⟨rfl, ⟨hshape, hitems, hkeys, fun e he => ?_, hdistinct⟩, fun e he => ?_, longest, hsearch⟩
    · exact ⟨(hedges e he).narrower, (hedges e he).broader⟩
    · exact (hedges e he).apart
  · rintro ⟨rfl, ⟨hshape, hitems, hkeys, hedges, hdistinct⟩, hapart, longest, hsearch⟩
    obtain ⟨hrecord, hcount, hcount'⟩ := isTaxonomyContent_spec hshape
    refine ⟨hrecord, hcount, hcount', hshape, _, ⟨rfl, hitems, hkeys⟩, _, ⟨rfl, fun e he => ?_, hdistinct⟩,
      longest, hsearch, rfl⟩
    exact ⟨(hedges e he).1, (hedges e he).2, hapart e he⟩

/-- A taxonomy is accepted just where it is well formed and its edges form no cycle and no path
beyond the bound. -/
theorem accepted_iff : (∃ profile, plainProfile content = .ok profile) ↔
    WellFormed content ∧ (∀ a, ¬ Relation.TransGen (Broader content) a a) ∧
      ∀ a path, (a :: path).IsChain (Broader content) → path.length ≤ taxonomyPathEdges := by
  have hbroader : (fun a b => b ∈ graph (edgesOf content) a) = Broader content := by
    funext a b
    exact propext mem_graph
  have hpaths : (∀ a, Bounded (graph (edgesOf content)) taxonomyPathEdges a) ↔
      ∀ a path, (a :: path).IsChain (Broader content) → path.length ≤ taxonomyPathEdges := by
    simp only [Bounded, IsPath, hbroader]
  have hsearch (h : WellFormed content) :
      (∃ longest, searchAll (graph (edgesOf content)) taxonomyPathEdges (keysOf content) =
        .ok longest) ↔ ∀ a, Bounded (graph (edgesOf content)) taxonomyPathEdges a := by
    apply searchAll_isOk_iff
    intro a ha
    obtain ⟨b, hb⟩ := List.exists_mem_of_ne_nil _ ha
    exact (h.edges _ (mem_graph.mp hb)).1
  constructor
  · rintro ⟨profile, hprofile⟩
    obtain ⟨-, hwell, -, hfound⟩ := plainProfile_eq_ok_iff.mp hprofile
    have hbounded := (hsearch hwell).mp hfound
    exact ⟨hwell, hbroader ▸ acyclic_of_bounded hbounded, hpaths.mp hbounded⟩
  · rintro ⟨hwell, hacyclic, hbounded⟩
    refine ⟨_, plainProfile_eq_ok_iff.mpr ⟨rfl, hwell, fun e he heq => ?_, ?_⟩⟩
    · have hloop : Broader content e.1 e.1 := by
        rw [Broader]
        nth_rewrite 2 [heq]
        exact he
      exact hacyclic e.1 (.single hloop)
    · exact (hsearch hwell).mpr (hpaths.mpr hbounded)

end Loops

section Orders

variable {content content' : Json}

/-- The order of the items and of the edges apart, two contents are the same. -/
structure Rearranged (content content' : Json) : Prop where
  records : isRecord content = true ∧ isRecord content' = true
  items : ∃ xs xs', content.prop "items" = some (.arr xs) ∧ content'.prop "items" = some (.arr xs') ∧
    xs.Perm xs'
  broader : ∃ ys ys', content.prop "broader" = some (.arr ys) ∧
    content'.prop "broader" = some (.arr ys') ∧ ys.Perm ys'
  others : ∀ name, name ≠ "items" → name ≠ "broader" → content'.prop name = content.prop name

theorem Rearranged.symm (h : Rearranged content content') : Rearranged content' content := by
  obtain ⟨⟨hrecord, hrecord'⟩, ⟨xs, xs', hxs, hxs', hitems⟩, ⟨ys, ys', hys, hys', hbroader⟩, hothers⟩ := h
  exact ⟨⟨hrecord', hrecord⟩, ⟨xs', xs, hxs', hxs, hitems.symm⟩, ⟨ys', ys, hys', hys, hbroader.symm⟩,
    fun name hn hn' => (hothers name hn hn').symm⟩

/-- A closed object, by what it has and lacks. -/
theorem closedObject_iff {v : Json} {required : List String} (hrecord : isRecord v = true) :
    closedObject v required [] = true ↔
      (∀ name, name ∉ required → v.prop name = none) ∧ ∀ name ∈ required, (v.prop name).isSome := by
  constructor
  · intro h
    obtain ⟨-, hothers, hall⟩ := closedObject_spec h
    exact ⟨fun name hname => hothers name hname List.not_mem_nil, fun name hname =>
      Option.isSome_iff_exists.mpr (hall name hname)⟩
  · rintro ⟨hothers, hall⟩
    cases v with
    | obj props =>
      rw [closedObject, Bool.and_eq_true, List.all_eq_true, List.all_eq_true]
      refine ⟨fun p hp => ?_, hall⟩
      rw [Bool.or_eq_true, List.contains_iff_mem]
      by_contra hnot
      have hnone := hothers p.1 fun hmem => hnot (.inl hmem)
      rw [prop, Option.map_eq_none_iff, List.find?_eq_none] at hnone
      exact hnone p hp (decide_eq_true rfl)
    | _ => cases hrecord

theorem isListOf_arr {maximum : ℕ} {isElement : Json → Bool} {xs xs' : List Json}
    (h : xs.Perm xs') : isListOf maximum isElement (.arr xs) = isListOf maximum isElement (.arr xs') := by
  change (decide _ && _) = (decide _ && _)
  rw [h.length_eq, h.all_eq]

theorem Rearranged.isTaxonomyContent (h : Rearranged content content')
    (hshape : isTaxonomyContent content = true) : isTaxonomyContent content' = true := by
  obtain ⟨⟨hrecord, hrecord'⟩, ⟨xs, xs', hxs, hxs', hitems⟩, ⟨ys, ys', hys, hys', hbroader⟩, hothers⟩ := h
  simp only [Components.isTaxonomyContent, Bool.and_eq_true, closedObject_iff hrecord,
    closedObject_iff hrecord', hxs, hys, hxs', hys', Option.any_some, isListOf_arr hitems,
    isListOf_arr hbroader] at hshape ⊢
  obtain ⟨⟨⟨hnone, -⟩, hrest⟩, hrest'⟩ := hshape
  refine ⟨⟨⟨fun name hname => ?_, ?_⟩, hrest⟩, hrest'⟩
  · rw [hothers name (fun heq => hname (by simp [heq])) fun heq => hname (by simp [heq])]
    exact hnone name hname
  · simp [hxs', hys']

theorem Rearranged.elements (h : Rearranged content content') :
    (elementsOf content "items").Perm (elementsOf content' "items") ∧
      (elementsOf content "broader").Perm (elementsOf content' "broader") := by
  obtain ⟨-, ⟨xs, xs', hxs, hxs', hitems⟩, ⟨ys, ys', hys, hys', hbroader⟩, -⟩ := h
  rw [elementsOf, elementsOf, elementsOf, elementsOf, hxs, hxs', hys, hys']
  exact ⟨hitems, hbroader⟩

theorem Rearranged.wellFormed (h : Rearranged content content') (hwell : WellFormed content) :
    WellFormed content' := by
  obtain ⟨hitems, hbroader⟩ := h.elements
  have hkeys : (keysOf content).Perm (keysOf content') := hitems.map keyOf
  have hedges : (edgesOf content).Perm (edgesOf content') := hbroader.map edgeOf
  refine ⟨h.isTaxonomyContent hwell.shape, fun item hitem => hwell.items item (hitems.mem_iff.mpr hitem),
    hkeys.nodup_iff.mp hwell.keys, fun e he => ?_, hedges.nodup_iff.mp hwell.distinct⟩
  rw [← hkeys.mem_iff, ← hkeys.mem_iff]
  exact hwell.edges e (hedges.mem_iff.mpr he)

theorem Rearranged.broader_eq (h : Rearranged content content') : Broader content = Broader content' := by
  funext a b
  exact propext (h.elements.2.map edgeOf).mem_iff

/-- The keys of an edge are read from its rank. -/
theorem edgeOf_eq_of_rank {e e' : Json} (h : edgeRank e = edgeRank e') : edgeOf e = edgeOf e' := by
  have hpair := toLex.injective h
  rw [Prod.mk.injEq] at hpair
  exact Prod.ext (utf8Key_injective hpair.1) (utf8Key_injective hpair.2)

/-- Well-formed taxonomies with the same items and edges have one normal form. -/
theorem Rearranged.normalForm_eq (h : Rearranged content content') (hwell : WellFormed content) :
    normalForm content = normalForm content' := by
  obtain ⟨hitems, hbroader⟩ := h.elements
  rw [normalForm, normalForm, sortByUtf8_eq_of_perm hwell.keys hitems]
  rw [insertionSort_eq_of_perm (fun a ha b hb hrank => ?_) hbroader]
  exact List.inj_on_of_nodup_map hwell.distinct ha hb (edgeOf_eq_of_rank hrank)

theorem Rearranged.plainProfile {profile : Json} (h : Rearranged content content')
    (hprofile : plainProfile content = .ok profile) : Components.plainProfile content' = .ok profile := by
  obtain ⟨rfl, hwell, -⟩ := plainProfile_eq_ok_iff.mp hprofile
  obtain ⟨-, hpaths⟩ := accepted_iff.mp ⟨_, hprofile⟩
  rw [h.broader_eq] at hpaths
  obtain ⟨profile', hprofile'⟩ := accepted_iff.mpr ⟨h.wellFormed hwell, hpaths⟩
  obtain ⟨rfl, -⟩ := plainProfile_eq_ok_iff.mp hprofile'
  rw [h.normalForm_eq hwell, hprofile']

/-- A taxonomy is accepted just where it is well formed and its edges form no cycle and no path
beyond the bound, and the order of its items and edges changes neither this nor its normal form. -/
theorem taxonomy_exact (content content' : Json) (h : Rearranged content content') :
    ((∃ profile, Components.plainProfile content = .ok profile) ↔
      WellFormed content ∧ (∀ a, ¬ Relation.TransGen (Broader content) a a) ∧
        ∀ a path, (a :: path).IsChain (Broader content) → path.length ≤ taxonomyPathEdges) ∧
      (Components.plainProfile content').toOption = (Components.plainProfile content).toOption := by
  refine ⟨accepted_iff, Option.ext fun profile => ?_⟩
  rw [toOption_eq_some_iff, toOption_eq_some_iff]
  exact ⟨h.symm.plainProfile, h.plainProfile⟩

end Orders

/-- An item. -/
def sampleItem (key : String) : Json :=
  .obj [("key", .str key), ("title", .str "Title"), ("meaning", .str "Meaning")]

/-- A taxonomy of two items, with the narrower one first or last. -/
def sampleTaxonomy (items : List Json) : Json :=
  .obj [("items", .arr items),
    ("broader", .arr [.obj [("narrowerKey", .str "a"), ("broaderKey", .str "b")]])]

theorem taxonomy_exact_sample :
    ((∃ profile, plainProfile (sampleTaxonomy [sampleItem "a", sampleItem "b"]) = .ok profile) ↔
      WellFormed (sampleTaxonomy [sampleItem "a", sampleItem "b"]) ∧
        (∀ a, ¬ Relation.TransGen
          (Broader (sampleTaxonomy [sampleItem "a", sampleItem "b"])) a a) ∧
        ∀ a path, (a :: path).IsChain (Broader (sampleTaxonomy [sampleItem "a", sampleItem "b"])) →
          path.length ≤ taxonomyPathEdges) ∧
      (plainProfile (sampleTaxonomy [sampleItem "b", sampleItem "a"])).toOption =
        (plainProfile (sampleTaxonomy [sampleItem "a", sampleItem "b"])).toOption := by
  refine taxonomy_exact _ _ ⟨⟨rfl, rfl⟩, ⟨_, _, rfl, rfl, .swap _ _ _⟩, ⟨_, _, rfl, rfl, .refl _⟩, ?_⟩
  intro name hitems hbroader
  simp [sampleTaxonomy, Ne.symm hitems, Ne.symm hbroader]

end Kdna.Components
