import JsxProvenance.Tree.Induction
import JsxProvenance.Tree.Traversal
import Mathlib.Data.List.Basic

/-!
Laws of the maps over the elements of a tree. Two maps in a row are one map, if
the second one meets what the first one leaves of an element in a known way. A map
that adds or drops attributes gives a tree back only if it changes none of its
elements. A map that changes nothing of what is nested in an element keeps the list
of elements, one for one. A map over the first elements is the map over all of them
as soon as it counts far enough.

The step at an element is the same in all of these: its parts are done first, and
then the element itself. `mapParts` names the first half of the step, and `nested`
lists what the parts hold.
-/

namespace JsxProvenance

namespace OpeningElement

/-- Replaces each part of an element that is a tree. -/
def mapParts (g : Tree → Tree) (e : Element) : Element where
  tag := g e.tag
  span := e.span
  attributes := e.attributes.map g
  selfClosing := e.selfClosing
  typeArguments := g e.typeArguments

/-- The elements nested in the parts of an element, in the order in which they are
finished. -/
def nested (e : Element) : List Element :=
  e.tag.elements ++ e.attributes.flatMap Tree.elements ++ e.typeArguments.elements

@[simp] theorem span_mapParts (g : Tree → Tree) (e : Element) :
    (e.mapParts g).span = e.span := rfl

theorem mapElements_eq (f : Element → Element) (e : Element) :
    e.mapElements f = f (e.mapParts (Tree.mapElements f)) := by
  obtain ⟨tag, span, attributes, selfClosing, typeArguments⟩ := e
  rw [OpeningElement.mapElements, Tree.mapItems_eq_map]
  rfl

theorem elements_eq (e : Element) : e.elements = e.nested ++ [e] := by
  obtain ⟨tag, span, attributes, selfClosing, typeArguments⟩ := e
  rw [OpeningElement.elements, Tree.elementsOfItems_eq_flatMap]
  rfl

theorem mapParts_congr {g h : Tree → Tree} {e : Element} (htag : g e.tag = h e.tag)
    (hattributes : ∀ item ∈ e.attributes, g item = h item)
    (harguments : g e.typeArguments = h e.typeArguments) :
    e.mapParts g = e.mapParts h := by
  simp only [mapParts, htag, harguments, List.map_congr_left hattributes]

theorem mapParts_mapParts (g h : Tree → Tree) (e : Element) :
    (e.mapParts g).mapParts h = e.mapParts (h ∘ g) := by
  simp [mapParts]

theorem mapParts_id (e : Element) : e.mapParts id = e := by
  simp [mapParts]

theorem mapParts_addAttribute (g : Tree → Tree) (e : Element) (added : Tree) :
    (e.addAttribute added).mapParts g = (e.mapParts g).addAttribute (g added) := by
  simp [mapParts, addAttribute]

end OpeningElement

open OpeningElement

section Fusion

variable {f g h : Element → Element}

/-- Two maps over the elements of a tree are one, if `h` says what the second map
makes of an element that the first one has changed, given its parts mapped. -/
theorem Tree.mapElements_mapElements
    (hstep : ∀ e : Element, (f e).mapElements g = h (e.mapParts (Tree.mapElements g)))
    (tree : Tree) : (tree.mapElements f).mapElements g = tree.mapElements h := by
  induction tree using Tree.induction with
  | null | bool | number | text | span => rfl
  | list items ih =>
      simp only [Tree.mapElements, Tree.mapItems_eq_map, List.map_map, Tree.list.injEq]
      exact List.map_congr_left ih
  | node kind fields ih | record fields ih =>
      simp only [Tree.mapElements, Tree.mapFields_eq_map, List.map_map]
      congr 1
      apply List.map_congr_left
      intro field member
      simp only [Function.comp_apply, ih field member]
  | element e htag hattributes harguments =>
      have hparts : e.mapParts (Tree.mapElements g ∘ Tree.mapElements f) =
          e.mapParts (Tree.mapElements h) := mapParts_congr htag hattributes harguments
      simp only [Tree.mapElements, Tree.element.injEq]
      rw [mapElements_eq f, hstep, mapParts_mapParts, hparts, mapElements_eq h]

theorem Program.mapElements_mapElements
    (hstep : ∀ e : Element, (f e).mapElements g = h (e.mapParts (Tree.mapElements g)))
    (program : Program) :
    (program.mapElements f).mapElements g = program.mapElements h := by
  have hbody : (program.body.map (Tree.mapElements f)).map (Tree.mapElements g) =
      program.body.map (Tree.mapElements h) := by
    rw [List.map_map]
    exact List.map_congr_left fun item _ => Tree.mapElements_mapElements hstep item
  simp only [Program.mapElements, Tree.mapItems_eq_map, hbody,
    Tree.mapElements_mapElements hstep]

end Fusion

section Congruence

variable {f g : Element → Element}

/-- Two maps over the elements of a tree are the same if they do the same to each of its
elements, whatever has become of the parts by then. -/
theorem Tree.mapElements_congr (tree : Tree)
    (h : ∀ e ∈ tree.elements, ∀ inside, f (e.mapParts inside) = g (e.mapParts inside)) :
    tree.mapElements f = tree.mapElements g := by
  induction tree using Tree.induction with
  | null | bool | number | text | span => rfl
  | list items ih =>
      simp only [Tree.elements, Tree.elementsOfItems_eq_flatMap, List.mem_flatMap] at h
      simp only [Tree.mapElements, Tree.mapItems_eq_map, Tree.list.injEq]
      apply List.map_congr_left
      intro item member
      exact ih item member fun e he => h e ⟨item, member, he⟩
  | node kind fields ih | record fields ih =>
      simp only [Tree.elements, Tree.elementsOfFields_eq_flatMap, List.mem_flatMap] at h
      simp only [Tree.mapElements, Tree.mapFields_eq_map]
      congr 1
      apply List.map_congr_left
      intro field member
      rw [ih field member fun e he => h e ⟨field, member, he⟩]
  | element e htag hattributes harguments =>
      simp only [Tree.elements, elements_eq, nested, List.mem_append, List.mem_flatMap] at h
      have hparts : e.mapParts (Tree.mapElements f) = e.mapParts (Tree.mapElements g) := by
        apply mapParts_congr
        · exact htag fun x hx => h x (by simp [hx])
        · intro item member
          exact hattributes item member fun x hx =>
            h x (Or.inl (Or.inl (Or.inr ⟨item, member, hx⟩)))
        · exact harguments fun x hx => h x (by simp [hx])
      simp only [Tree.mapElements, Tree.element.injEq, mapElements_eq, hparts]
      exact h e (by simp) _

theorem Program.mapElements_congr (program : Program)
    (h : ∀ e ∈ program.elements, ∀ inside, f (e.mapParts inside) = g (e.mapParts inside)) :
    program.mapElements f = program.mapElements g := by
  simp only [Program.elements, List.mem_append] at h
  have hbody := Tree.mapElements_congr (.list program.body) fun e he => h e (Or.inl he)
  have hinterpreter := Tree.mapElements_congr program.interpreter fun e he => h e (Or.inr he)
  rw [Tree.mapElements, Tree.mapElements, Tree.list.injEq] at hbody
  rw [Program.mapElements, Program.mapElements, hbody, hinterpreter]

end Congruence

/-- A tree stays as it is under a map that changes none of its elements. -/
theorem Tree.mapElements_eq_self {f : Element → Element} (tree : Tree)
    (hf : ∀ e ∈ tree.elements, f e = e) : tree.mapElements f = tree := by
  induction tree using Tree.induction with
  | null | bool | number | text | span => rfl
  | list items ih =>
      simp only [Tree.elements, Tree.elementsOfItems_eq_flatMap, List.mem_flatMap] at hf
      have hitems : items.map (Tree.mapElements f) = items.map id := by
        apply List.map_congr_left
        intro item member
        exact ih item member fun e he => hf e ⟨item, member, he⟩
      rw [Tree.mapElements, Tree.mapItems_eq_map, hitems, List.map_id]
  | node kind fields ih | record fields ih =>
      simp only [Tree.elements, Tree.elementsOfFields_eq_flatMap, List.mem_flatMap] at hf
      have hfields : fields.map (fun field => (field.1, field.2.mapElements f)) =
          fields.map id := by
        apply List.map_congr_left
        intro field member
        rw [ih field member fun e he => hf e ⟨field, member, he⟩]
        rfl
      rw [Tree.mapElements, Tree.mapFields_eq_map, hfields, List.map_id]
  | element e htag hattributes harguments =>
      simp only [Tree.elements, elements_eq, nested, List.mem_append, List.mem_flatMap] at hf
      have hparts : e.mapParts (Tree.mapElements f) = e.mapParts id := by
        apply mapParts_congr
        · exact htag fun x hx => hf x (by simp [hx])
        · intro item member
          exact hattributes item member fun x hx =>
            hf x (Or.inl (Or.inl (Or.inr ⟨item, member, hx⟩)))
        · exact harguments fun x hx => hf x (by simp [hx])
      rw [mapParts_id] at hparts
      simp only [Tree.mapElements, Tree.element.injEq, mapElements_eq, hparts]
      exact hf e (by simp)

theorem Program.mapElements_eq_self {f : Element → Element} (program : Program)
    (hf : ∀ e ∈ program.elements, f e = e) : program.mapElements f = program := by
  simp only [Program.elements, List.mem_append] at hf
  have hbody := Tree.mapElements_eq_self (.list program.body) fun e he => hf e (Or.inl he)
  have hinterpreter := Tree.mapElements_eq_self program.interpreter
    fun e he => hf e (Or.inr he)
  rw [Tree.mapElements, Tree.list.injEq] at hbody
  rw [Program.mapElements, hbody, hinterpreter]

section Fixed

variable {f : Element → Element}
  (hf : ∀ e : Element, (f e).attributes.length = e.attributes.length → f e = e)

include hf

/-- A map that shows in the number of attributes wherever it changes an element cannot give
a tree back as it was unless it changes no element of it: what it does to an element is not
made up for by what it does inside. -/
theorem Tree.eq_self_of_mapElements {tree : Tree} (h : tree.mapElements f = tree) :
    ∀ e ∈ tree.elements, f e = e := by
  induction tree using Tree.induction with
  | null | bool | number | text | span =>
      intro e member
      cases member
  | list items ih =>
      have hitems : items.map (Tree.mapElements f) = items.map id := by
        rw [List.map_id, ← Tree.mapItems_eq_map]
        exact Tree.list.inj h
      intro e member
      rw [Tree.elements, Tree.elementsOfItems_eq_flatMap] at member
      obtain ⟨item, hitem, he⟩ := List.mem_flatMap.mp member
      exact ih item hitem (List.map_inj_left.mp hitems item hitem) e he
  | node kind fields ih | record fields ih =>
      have hfields : fields.map (fun field => (field.1, field.2.mapElements f)) =
          fields.map id := by
        rw [List.map_id, ← Tree.mapFields_eq_map]
        injection h
      intro e member
      rw [Tree.elements, Tree.elementsOfFields_eq_flatMap] at member
      obtain ⟨field, hfield, he⟩ := List.mem_flatMap.mp member
      have hvalue := List.map_inj_left.mp hfields field hfield
      exact ih field hfield (congrArg Prod.snd hvalue) e he
  | element e htag hattributes harguments =>
      have hwhole : f (e.mapParts (Tree.mapElements f)) = e := by
        rw [← mapElements_eq f]
        exact Tree.element.inj h
      -- the parts are as many as before, so the element was not changed after them
      have hlength : (f (e.mapParts (Tree.mapElements f))).attributes.length =
          (e.mapParts (Tree.mapElements f)).attributes.length := by
        rw [hwhole, mapParts, List.length_map]
      have hparts : e.mapParts (Tree.mapElements f) = e := by
        rw [← hf _ hlength, hwhole]
      have hitems : e.attributes.map (Tree.mapElements f) = e.attributes.map id := by
        rw [List.map_id]
        exact congrArg OpeningElement.attributes hparts
      intro other member
      simp only [Tree.elements, elements_eq, nested, List.mem_append, List.mem_flatMap,
        List.mem_singleton] at member
      rcases member with ((hother | ⟨item, hitem, hother⟩) | hother) | rfl
      · exact htag (congrArg OpeningElement.tag hparts) other hother
      · exact hattributes item hitem (List.map_inj_left.mp hitems item hitem) other hother
      · exact harguments (congrArg OpeningElement.typeArguments hparts) other hother
      · rwa [hparts] at hwhole

theorem Program.mapElements_eq_self_iff (program : Program) :
    program.mapElements f = program ↔ ∀ e ∈ program.elements, f e = e := by
  constructor
  · intro h e member
    have hbody : (Tree.list program.body).mapElements f = .list program.body :=
      congrArg (Tree.list ∘ Program.body) h
    have hinterpreter : program.interpreter.mapElements f = program.interpreter :=
      congrArg Program.interpreter h
    rcases List.mem_append.mp member with he | he
    · exact Tree.eq_self_of_mapElements hf hbody e he
    · exact Tree.eq_self_of_mapElements hf hinterpreter e he
  · exact Program.mapElements_eq_self program

end Fixed

section Elements

variable {f : Element → Element} (hf : ∀ e : Element, (f e).nested = e.nested)

include hf

/-- A map that keeps what is nested in each element keeps the list of elements: the
element in each place is the map of the one that was there. -/
theorem Tree.elements_mapElements (tree : Tree) :
    (tree.mapElements f).elements = tree.elements.map (OpeningElement.mapElements f) := by
  induction tree using Tree.induction with
  | null | bool | number | text | span => rfl
  | list items ih =>
      simp only [Tree.mapElements, Tree.mapItems_eq_map, Tree.elements,
        Tree.elementsOfItems_eq_flatMap, List.flatMap_map, List.map_flatMap]
      exact List.flatMap_congr ih
  | node kind fields ih | record fields ih =>
      simp only [Tree.mapElements, Tree.mapFields_eq_map, Tree.elements,
        Tree.elementsOfFields_eq_flatMap, List.flatMap_map, List.map_flatMap]
      exact List.flatMap_congr ih
  | element e htag hattributes harguments =>
      have hnested : (e.mapParts (Tree.mapElements f)).nested =
          e.nested.map (OpeningElement.mapElements f) := by
        simp only [nested, mapParts, htag, harguments, List.map_append, List.flatMap_map,
          List.map_flatMap, List.flatMap_congr hattributes]
      simp only [Tree.mapElements, Tree.elements, elements_eq]
      rw [mapElements_eq, hf, hnested, List.map_append, List.map_singleton, mapElements_eq]

theorem Program.elements_mapElements (program : Program) :
    (program.mapElements f).elements =
      program.elements.map (OpeningElement.mapElements f) := by
  simp only [Program.mapElements, Program.elements, Tree.mapItems_eq_map,
    Tree.elementsOfItems_eq_flatMap, List.flatMap_map, List.map_append, List.map_flatMap,
    Tree.elements_mapElements hf]

end Elements

section First

variable {f : Element → Element}

private theorem mapFirstItems_eq_map (items : List Tree)
    (ih : ∀ item ∈ items, ∀ count, item.elements.length ≤ count →
      item.mapFirst f count = item.mapElements f)
    (count : Nat) (hcount : (Tree.elementsOfItems items).length ≤ count) :
    Tree.mapFirstItems f count items = Tree.mapItems f items := by
  induction items generalizing count with
  | nil => rfl
  | cons item rest ihrest =>
      rw [Tree.elementsOfItems, List.length_append] at hcount
      rw [Tree.mapFirstItems, Tree.mapItems, ih item List.mem_cons_self count (by omega)]
      congr 1
      apply ihrest
      · intro other member
        exact ih other (List.mem_cons_of_mem item member)
      · omega

private theorem mapFirstFields_eq_map (fields : List (String × Tree))
    (ih : ∀ field ∈ fields, ∀ count, field.2.elements.length ≤ count →
      field.2.mapFirst f count = field.2.mapElements f)
    (count : Nat) (hcount : (Tree.elementsOfFields fields).length ≤ count) :
    Tree.mapFirstFields f count fields = Tree.mapFields f fields := by
  induction fields generalizing count with
  | nil => rfl
  | cons field rest ihrest =>
      obtain ⟨name, value⟩ := field
      rw [Tree.elementsOfFields, Tree.elementsOfField, List.length_append] at hcount
      have hvalue : value.mapFirst f count = value.mapElements f :=
        ih (name, value) List.mem_cons_self count (by dsimp only; omega)
      rw [Tree.mapFirstFields, Tree.mapFields, Tree.mapFirstField, Tree.mapField,
        Tree.elementsOfField, hvalue]
      congr 1
      apply ihrest
      · intro other member
        exact ih other (List.mem_cons_of_mem _ member)
      · omega

/-- A map over the first elements reaches all of them if it counts at least as many
as there are. -/
theorem Tree.mapFirst_eq_mapElements (tree : Tree) (count : Nat)
    (hcount : tree.elements.length ≤ count) : tree.mapFirst f count = tree.mapElements f := by
  induction tree using Tree.induction generalizing count with
  | null | bool | number | text | span => rfl
  | list items ih =>
      rw [Tree.mapFirst, Tree.mapElements, mapFirstItems_eq_map items ih count hcount]
  | node kind fields ih | record fields ih =>
      rw [Tree.mapFirst, Tree.mapElements, mapFirstFields_eq_map fields ih count hcount]
  | element e htag hattributes harguments =>
      obtain ⟨tag, span, attributes, selfClosing, typeArguments⟩ := e
      dsimp only at htag hattributes harguments
      simp only [Tree.elements, OpeningElement.elements, List.length_append,
        List.length_singleton] at hcount
      simp only [Tree.mapFirst, OpeningElement.mapFirst, Tree.mapElements,
        OpeningElement.mapElements]
      rw [htag count (by omega), harguments _ (by omega),
        mapFirstItems_eq_map attributes hattributes _ (by omega), if_pos (by omega)]

theorem Program.mapFirst_eq_mapElements (program : Program) (count : Nat)
    (hcount : program.elements.length ≤ count) :
    program.mapFirst f count = program.mapElements f := by
  rw [Program.elements, List.length_append] at hcount
  rw [Program.mapFirst, Program.mapElements, Tree.mapFirst_eq_mapElements _ _ (by omega),
    mapFirstItems_eq_map program.body _ count (by omega)]
  intro item _ remaining hremaining
  exact Tree.mapFirst_eq_mapElements item remaining hremaining

end First

end JsxProvenance
