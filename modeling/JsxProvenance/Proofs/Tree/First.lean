import JsxProvenance.Proofs.Tree.Mapping

/-!
Maps over the first elements of a tree, one element at a time. Elements are numbered in
the order in which they are finished, so what is nested in an element has the numbers
right before its own. A map over the first elements of a tree is therefore also one over
the first elements of each element in it, with those left out of the count that come
before all that is nested in it.

The parts of an element, the fields of a node and the items of a list are walked over in
the same way. They are all treated as lists of trees here, and the laws are proved for
these.

Main statement: `Tree.elements_mapFirst`.
-/

namespace JsxProvenance

section Items

variable (f : Element → Element)

theorem Tree.elementsOfItems_append (items more : List Tree) :
    Tree.elementsOfItems (items ++ more) =
      Tree.elementsOfItems items ++ Tree.elementsOfItems more := by
  simp only [Tree.elementsOfItems_eq_flatMap, List.flatMap_append]

theorem Tree.mapFirstItems_append (count : Nat) (items more : List Tree) :
    Tree.mapFirstItems f count (items ++ more) =
      Tree.mapFirstItems f count items ++
        Tree.mapFirstItems f (count - (Tree.elementsOfItems items).length) more := by
  induction items generalizing count with
  | nil => rfl
  | cons item rest ih =>
      simp only [List.cons_append, Tree.mapFirstItems, ih, Tree.elementsOfItems,
        List.length_append, Nat.sub_add_eq]

theorem Tree.elementsOfFields_eq (fields : List (String × Tree)) :
    Tree.elementsOfFields fields = Tree.elementsOfItems (fields.map Prod.snd) := by
  rw [Tree.elementsOfFields_eq_flatMap, Tree.elementsOfItems_eq_flatMap, List.flatMap_map]

theorem Tree.map_snd_mapFirstFields (count : Nat) (fields : List (String × Tree)) :
    (Tree.mapFirstFields f count fields).map Prod.snd =
      Tree.mapFirstItems f count (fields.map Prod.snd) := by
  induction fields generalizing count with
  | nil => rfl
  | cons field rest ih =>
      obtain ⟨name, value⟩ := field
      simp only [Tree.mapFirstFields, Tree.mapFirstField, Tree.elementsOfField, List.map_cons,
        Tree.mapFirstItems, ih]

end Items

namespace OpeningElement

/-- The parts of an element that are trees, in the order in which they are walked over. -/
def parts (e : Element) : List Tree :=
  e.tag :: e.attributes ++ [e.typeArguments]

theorem nested_eq (e : Element) : e.nested = Tree.elementsOfItems e.parts := by
  simp [nested, parts, Tree.elementsOfItems_eq_flatMap]

/-- Replaces the first `count` of the elements nested in an element. -/
def mapFirstParts (f : Element → Element) (count : Nat) (e : Element) : Element where
  tag := e.tag.mapFirst f count
  span := e.span
  attributes := Tree.mapFirstItems f (count - e.tag.elements.length) e.attributes
  selfClosing := e.selfClosing
  typeArguments := e.typeArguments.mapFirst f
    (count - e.tag.elements.length - (Tree.elementsOfItems e.attributes).length)

variable {f : Element → Element}

/-- An element comes behind all that is nested in it. -/
theorem mapFirst_eq (count : Nat) (e : Element) :
    e.mapFirst f count =
      if e.nested.length < count then f (e.mapFirstParts f count)
      else e.mapFirstParts f count := by
  obtain ⟨tag, span, attributes, selfClosing, typeArguments⟩ := e
  have hcount : 0 < count - tag.elements.length - (Tree.elementsOfItems attributes).length -
        typeArguments.elements.length ↔
      (nested ⟨tag, span, attributes, selfClosing, typeArguments⟩).length < count := by
    simp only [nested, ← Tree.elementsOfItems_eq_flatMap, List.length_append]
    omega
  simp only [OpeningElement.mapFirst, hcount]
  rfl

theorem parts_mapFirstParts (count : Nat) (e : Element) :
    (e.mapFirstParts f count).parts = Tree.mapFirstItems f count e.parts := by
  rw [parts, parts, Tree.mapFirstItems_append, Tree.elementsOfItems, List.length_append,
    Nat.sub_add_eq]
  rfl

/-- What becomes of the element with the given number if the first `count` elements are
replaced: `number - e.nested.length` of these come before all that is nested in it. -/
def numbered (f : Element → Element) (count number : Nat) (e : Element) : Element :=
  e.mapFirst f (count - (number - e.nested.length))

theorem numbered_sub {count before number : Nat} {e : Element}
    (h : e.nested.length ≤ number) :
    numbered f (count - before) number e = numbered f count (number + before) e := by
  have hcount : count - before - (number - e.nested.length) =
      count - (number + before - e.nested.length) := by omega
  rw [numbered, numbered, hcount]

end OpeningElement

open OpeningElement

/-- Every element stands behind as many others as are nested in it. -/
def NestedBefore (elements : List Element) : Prop :=
  ∀ (i : Nat) (e : Element), elements[i]? = some e → e.nested.length ≤ i

theorem NestedBefore.append {elements more : List Element} (h : NestedBefore elements)
    (hmore : NestedBefore more) : NestedBefore (elements ++ more) := by
  intro i e he
  rw [List.getElem?_append] at he
  split at he
  · exact h i e he
  · have hle := hmore _ e he
    omega

theorem Tree.nestedBefore_items {items : List Tree}
    (h : ∀ item ∈ items, NestedBefore item.elements) :
    NestedBefore (Tree.elementsOfItems items) := by
  induction items with
  | nil =>
      intro i e he
      cases he
  | cons item rest ih =>
      rw [Tree.elementsOfItems]
      apply NestedBefore.append
      · exact h item List.mem_cons_self
      · apply ih
        intro other member
        exact h other (List.mem_cons_of_mem item member)

/-- What holds of the parts of an element holds of the members of one list. -/
theorem OpeningElement.forall_mem_parts {motive : Tree → Prop} {e : Element}
    (htag : motive e.tag) (hattributes : ∀ item ∈ e.attributes, motive item)
    (harguments : motive e.typeArguments) : ∀ part ∈ e.parts, motive part := by
  intro part member
  simp only [parts, List.cons_append, List.mem_cons, List.mem_append, List.not_mem_nil,
    or_false] at member
  rcases member with rfl | hpart | rfl
  · exact htag
  · exact hattributes part hpart
  · exact harguments

theorem OpeningElement.nestedBefore_elements {e : Element} (h : NestedBefore e.nested) :
    NestedBefore e.elements := by
  rw [elements_eq]
  intro i other he
  rw [List.getElem?_append] at he
  split at he
  · exact h i other he
  · obtain ⟨hzero, rfl⟩ : i - e.nested.length = 0 ∧ e = other := by
      simpa [List.getElem?_singleton] using he
    omega

theorem Tree.nestedBefore_elements (tree : Tree) : NestedBefore tree.elements := by
  induction tree using Tree.induction with
  | null | bool | number | text | span =>
      intro i e he
      cases he
  | list items ih =>
      rw [Tree.elements]
      exact Tree.nestedBefore_items ih
  | node kind fields ih | record fields ih =>
      rw [Tree.elements, Tree.elementsOfFields_eq]
      apply Tree.nestedBefore_items
      intro item member
      obtain ⟨field, hfield, rfl⟩ := List.mem_map.mp member
      exact ih field hfield
  | element e htag hattributes harguments =>
      rw [Tree.elements]
      apply OpeningElement.nestedBefore_elements
      rw [nested_eq]
      exact Tree.nestedBefore_items (forall_mem_parts htag hattributes harguments)

theorem Program.nestedBefore_elements (program : Program) : NestedBefore program.elements := by
  rw [Program.elements]
  apply NestedBefore.append
  · exact Tree.nestedBefore_elements (.list program.body)
  · exact Tree.nestedBefore_elements program.interpreter

section Elements

variable {f : Element → Element} (hf : ∀ e : Element, (f e).nested = e.nested)

/-- The items of a list share one count: each begins where those before it end. -/
theorem Tree.elements_mapFirstItems {items : List Tree}
    (h : ∀ item ∈ items, ∀ count,
      (item.mapFirst f count).elements = item.elements.mapIdx (numbered f count))
    (count : Nat) :
    Tree.elementsOfItems (Tree.mapFirstItems f count items) =
      (Tree.elementsOfItems items).mapIdx (numbered f count) := by
  induction items generalizing count with
  | nil => rfl
  | cons item rest ih =>
      have hrest := ih (fun other member => h other (List.mem_cons_of_mem item member))
        (count - item.elements.length)
      rw [Tree.mapFirstItems, Tree.elementsOfItems, Tree.elementsOfItems,
        h item List.mem_cons_self, hrest, List.mapIdx_append, List.append_cancel_left_eq,
        List.mapIdx_eq_mapIdx_iff]
      intro i hi
      apply numbered_sub
      exact Tree.nestedBefore_items (fun item _ => item.nestedBefore_elements) i _
        (List.getElem?_eq_getElem hi)

include hf

theorem OpeningElement.nested_mapFirst (count : Nat) (e : Element) :
    (e.mapFirst f count).nested = (e.mapFirstParts f count).nested := by
  rw [mapFirst_eq]
  split
  · exact hf _
  · rfl

/-- A map over the first elements of a tree, in which what is nested in an element is
kept, keeps the list of elements. In each place there is a map over the first elements of
the element that was there. -/
theorem Tree.elements_mapFirst (tree : Tree) (count : Nat) :
    (tree.mapFirst f count).elements = tree.elements.mapIdx (numbered f count) := by
  induction tree using Tree.induction generalizing count with
  | null | bool | number | text | span => rfl
  | list items ih =>
      rw [Tree.mapFirst, Tree.elements, Tree.elements, Tree.elements_mapFirstItems ih]
  | node kind fields ih | record fields ih =>
      have hfields : ∀ item ∈ fields.map Prod.snd, ∀ count,
          (item.mapFirst f count).elements = item.elements.mapIdx (numbered f count) := by
        intro item member
        obtain ⟨field, hfield, rfl⟩ := List.mem_map.mp member
        exact ih field hfield
      rw [Tree.mapFirst, Tree.elements, Tree.elements, Tree.elementsOfFields_eq,
        Tree.elementsOfFields_eq, Tree.map_snd_mapFirstFields,
        Tree.elements_mapFirstItems hfields]
  | element e htag hattributes harguments =>
      have hparts := Tree.elements_mapFirstItems
        (forall_mem_parts htag hattributes harguments) count
      have hself : numbered f count e.nested.length e = e.mapFirst f count := by
        rw [numbered, Nat.sub_self, Nat.sub_zero]
      rw [Tree.mapFirst, Tree.elements, Tree.elements, elements_eq, elements_eq,
        nested_mapFirst hf, nested_eq, parts_mapFirstParts, hparts, ← nested_eq,
        List.mapIdx_append, List.mapIdx_singleton, Nat.zero_add, hself]

theorem OpeningElement.elements_mapFirst (e : Element) (count : Nat) :
    (e.mapFirst f count).elements = e.elements.mapIdx (numbered f count) :=
  Tree.elements_mapFirst hf (.element e) count

theorem Program.elements_mapFirst (program : Program) (count : Nat) :
    (program.mapFirst f count).elements = program.elements.mapIdx (numbered f count) := by
  have hitems : ∀ item ∈ program.body ++ [program.interpreter], ∀ count,
      (item.mapFirst f count).elements = item.elements.mapIdx (numbered f count) :=
    fun item _ => Tree.elements_mapFirst hf item
  have hwhole := Tree.elements_mapFirstItems hitems count
  rw [Tree.mapFirstItems_append, Tree.elementsOfItems_append, Tree.elementsOfItems_append] at hwhole
  simpa [Program.elements, Program.mapFirst, Tree.mapFirstItems, Tree.elementsOfItems] using hwhole

end Elements

section Numbers

variable {f : Element → Element}

theorem Tree.length_mapFirstItems (count : Nat) (items : List Tree) :
    (Tree.mapFirstItems f count items).length = items.length := by
  induction items generalizing count with
  | nil => rfl
  | cons item rest ih => rw [Tree.mapFirstItems, List.length_cons, List.length_cons, ih]

theorem Tree.mapFirstItems_zero {items : List Tree}
    (h : ∀ item ∈ items, item.mapFirst f 0 = item) : Tree.mapFirstItems f 0 items = items := by
  induction items with
  | nil => rfl
  | cons item rest ih =>
      have hrest := ih fun other member => h other (List.mem_cons_of_mem item member)
      rw [Tree.mapFirstItems, h item List.mem_cons_self, Nat.zero_sub, hrest]

theorem Tree.mapFirstFields_zero {fields : List (String × Tree)}
    (h : ∀ field ∈ fields, field.2.mapFirst f 0 = field.2) :
    Tree.mapFirstFields f 0 fields = fields := by
  induction fields with
  | nil => rfl
  | cons field rest ih =>
      obtain ⟨name, value⟩ := field
      have hvalue : value.mapFirst f 0 = value := h (name, value) List.mem_cons_self
      have hrest := ih fun other member => h other (List.mem_cons_of_mem _ member)
      rw [Tree.mapFirstFields, Tree.mapFirstField, hvalue, Nat.zero_sub, hrest]

theorem Tree.mapFirst_zero (tree : Tree) : tree.mapFirst f 0 = tree := by
  induction tree using Tree.induction with
  | null | bool | number | text | span => rfl
  | list items ih => rw [Tree.mapFirst, Tree.mapFirstItems_zero ih]
  | node kind fields ih | record fields ih => rw [Tree.mapFirst, Tree.mapFirstFields_zero ih]
  | element e htag hattributes harguments =>
      simp only [Tree.mapFirst, mapFirst_eq, Nat.not_lt_zero, if_false, mapFirstParts,
        Nat.zero_sub, htag, Tree.mapFirstItems_zero hattributes, harguments]

namespace OpeningElement

theorem mapFirst_zero (e : Element) : e.mapFirst f 0 = e :=
  Tree.element.inj (Tree.mapFirst_zero (.element e))

theorem mapFirst_of_le {count : Nat} {e : Element} (h : count ≤ e.nested.length) :
    e.mapFirst f count = e.mapFirstParts f count := by
  rw [mapFirst_eq, if_neg (Nat.not_lt.mpr h)]

theorem mapFirstParts_zero (e : Element) : e.mapFirstParts f 0 = e := by
  rw [← mapFirst_of_le (Nat.zero_le _), mapFirst_zero]

theorem length_attributes_mapFirstParts (count : Nat) (e : Element) :
    (e.mapFirstParts f count).attributes.length = e.attributes.length :=
  Tree.length_mapFirstItems _ e.attributes

theorem mapFirst_of_lt {count : Nat} {e : Element} (h : e.nested.length < count) :
    e.mapFirst f count = e.mapElements f := by
  apply Tree.element.inj
  apply Tree.mapFirst_eq_mapElements (.element e)
  rw [Tree.elements, elements_eq, List.length_append, List.length_singleton]
  exact h

theorem mapFirstParts_of_le {count : Nat} {e : Element} (h : e.nested.length ≤ count) :
    e.mapFirstParts f count = e.mapParts (Tree.mapElements f) := by
  simp only [nested, ← Tree.elementsOfItems_eq_flatMap, List.length_append] at h
  have htag : e.tag.mapFirst f count = e.tag.mapElements f :=
    Tree.mapFirst_eq_mapElements e.tag count (by omega)
  have hattributes := Tree.mapFirst_eq_mapElements (f := f) (.list e.attributes)
    (count - e.tag.elements.length) (by rw [Tree.elements]; omega)
  have harguments : e.typeArguments.mapFirst f
      (count - e.tag.elements.length - (Tree.elementsOfItems e.attributes).length) =
        e.typeArguments.mapElements f :=
    Tree.mapFirst_eq_mapElements e.typeArguments _ (by omega)
  rw [Tree.mapFirst, Tree.mapElements, Tree.list.injEq, Tree.mapItems_eq_map] at hattributes
  rw [mapFirstParts, htag, hattributes, harguments]
  rfl

/-- An element with a number below the count is replaced, and so is all that is nested
in it. -/
theorem numbered_of_lt {count number : Nat} {e : Element} (hnested : e.nested.length ≤ number)
    (h : number < count) : numbered f count number e = e.mapElements f := by
  apply mapFirst_of_lt
  omega

/-- The first element that is not replaced has only its parts replaced. -/
theorem numbered_self {number : Nat} {e : Element} (hnested : e.nested.length ≤ number) :
    numbered f number number e = e.mapParts (Tree.mapElements f) := by
  have hcount : number - (number - e.nested.length) = e.nested.length := by omega
  rw [numbered, hcount, mapFirst_of_le (Nat.le_refl _), mapFirstParts_of_le (Nat.le_refl _)]

/-- An element that is not replaced itself keeps the number of its attributes. -/
theorem length_attributes_numbered_of_le {count number : Nat} {e : Element}
    (hnested : e.nested.length ≤ number) (h : count ≤ number) :
    (numbered f count number e).attributes.length = e.attributes.length := by
  rw [numbered, mapFirst_of_le (by omega), length_attributes_mapFirstParts]

/-- Of the elements nested in a later one, those are replaced that come before the last
`behind + 1` of them. -/
theorem numbered_of_gt {count behind : Nat} {e : Element}
    (hnested : e.nested.length ≤ count + 1 + behind) :
    numbered f count (count + 1 + behind) e =
      e.mapFirstParts f (e.nested.length - (behind + 1)) := by
  have hcount : count - (count + 1 + behind - e.nested.length) =
      e.nested.length - (behind + 1) := by omega
  rw [numbered, hcount, mapFirst_of_le (Nat.sub_le _ _)]

end OpeningElement

end Numbers

end JsxProvenance
