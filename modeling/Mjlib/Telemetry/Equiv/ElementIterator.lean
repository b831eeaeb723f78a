import Mathlib
import Mjlib.Lib.ParentPointers
import Mjlib.Lib.SameOutcome
import Mjlib.Telemetry.ElementIterator

/-!
# All elements are visited

`ReadType` stores an element, then those inside of it one after the other, then the final marker
(`IsBlock`, `readTypeAt_same`), so the places of the elements are in pre-order, with gaps at the
final markers (`places`).  They link a tree (`linked_places`), and `NextElement` goes over it:
`visited_parseElements`.
-/

namespace Mjlib.Telemetry.BinarySchemaParser

open ParentPointers

mutual

/-- The element and all elements inside of it. -/
def Element.tree : Element → NodeTree Element
  | .mk name binarySchema maybeFixedSize shape =>
    .node (.mk name binarySchema maybeFixedSize shape) shape.trees

/-- The children, or the elements of the fields. -/
def Shape.trees : Shape → List (NodeTree Element)
  | .object _ fields => fieldTrees fields
  | .enum child _ | .array child | .fixedArray _ child | .map child => [child.tree]
  | .union children => unionTrees children
  | .final | .null | .boolean | .fixedInt _ | .fixedUInt _ | .varint | .varuint | .float32
  | .float64 | .bytes | .string | .timestamp | .duration | .unnamed _ => []

def fieldTrees : List Field → List (NodeTree Element)
  | [] => []
  | .mk _ _ _ element _ :: fields => element.tree :: fieldTrees fields

def unionTrees : List Element → List (NodeTree Element)
  | [] => []
  | child :: children => child.tree :: unionTrees children

end

/-- Whether what is inside are fields. -/
def Shape.isObject : Shape → Bool
  | .object _ _ => true
  | _ => false

/-- Whether a final marker ends it. -/
def Shape.isEnded : Shape → Bool
  | .object _ _ | .union _ => true
  | _ => false

/-! ### Places -/

/-- The number of final markers right inside of an element. -/
def Shape.finals (shape : Shape) : ℕ := if shape.isEnded then 1 else 0

mutual

/-- The number of places that a tree takes. -/
def size : NodeTree Element → ℕ
  | .node element subtrees => sizes subtrees + element.shape.finals + 1

def sizes : List (NodeTree Element) → ℕ
  | [] => 0
  | t :: ts => size t + sizes ts

end

mutual

/-- The places of the elements, from `p` on. -/
def places (p : ℕ) : NodeTree Element → NodeTree ℕ
  | .node _ subtrees => .node p (allPlaces (p + 1) subtrees)

def allPlaces (p : ℕ) : List (NodeTree Element) → List (NodeTree ℕ)
  | [] => []
  | t :: ts => places p t :: allPlaces (p + size t) ts

end

/-- The pointers to the elements at the top. -/
def starts (p : ℕ) (ts : List (NodeTree Element)) : List ℕ := (allPlaces p ts).map NodeTree.root

theorem root_places (p : ℕ) (t : NodeTree Element) : (places p t).root = p := by
  cases t
  rfl

theorem starts_cons (p : ℕ) (t : NodeTree Element) (ts : List (NodeTree Element)) :
    starts p (t :: ts) = p :: starts (p + size t) ts := by
  rw [starts, allPlaces, List.map_cons, root_places]
  rfl

/-- An element as it is stored in the end. -/
def entry (parent : Option ℕ) (p : ℕ) (element : Element) (subtrees : List (NodeTree Element)) :
    Stored where
  element := element
  parent := parent
  children := if element.shape.isObject then [] else starts (p + 1) subtrees
  fields := if element.shape.isObject then starts (p + 1) subtrees else []

mutual

/-- What is stored for a tree, from the place `p` on. -/
def IsBlock (parent : Option ℕ) (p : ℕ) : NodeTree Element → List Stored → Prop
  | .node element subtrees, block => ∃ inside markers,
    block = entry parent p element subtrees :: (inside ++ markers) ∧
      AreBlocks p (p + 1) subtrees inside ∧ markers.length = element.shape.finals

/-- The same for trees with a parent, one after the other. -/
def AreBlocks (parent p : ℕ) : List (NodeTree Element) → List Stored → Prop
  | [], blocks => blocks = []
  | t :: ts, blocks => ∃ block rest, blocks = block ++ rest ∧
    IsBlock (some parent) p t block ∧ AreBlocks parent (p + size t) ts rest

end

mutual

theorem IsBlock.length_eq {parent : Option ℕ} {p : ℕ} {block : List Stored} :
    ∀ {t : NodeTree Element}, IsBlock parent p t block → block.length = size t
  | .node element subtrees, h => by
    rw [IsBlock] at h
    obtain ⟨inside, markers, rfl, hinside, hmarkers⟩ := h
    rw [size, List.length_cons, List.length_append, AreBlocks.length_eq hinside, hmarkers]

theorem AreBlocks.length_eq {parent p : ℕ} {blocks : List Stored} :
    ∀ {ts : List (NodeTree Element)}, AreBlocks parent p ts blocks → blocks.length = sizes ts
  | [], h => by
    rw [AreBlocks] at h
    rw [h, sizes, List.length_nil]
  | t :: ts, h => by
    rw [AreBlocks] at h
    obtain ⟨block, rest, rfl, hblock, hrest⟩ := h
    rw [sizes, List.length_append, hblock.length_eq, AreBlocks.length_eq hrest]

end

/-! ### What is stored -/

theorem modify_append_cons (f : Stored → Stored) (before after : List Stored) (stored : Stored) :
    (before ++ stored :: after).modify before.length f = before ++ f stored :: after := by
  induction before with
  | nil => rfl
  | cons head before ih => simpa using ih

theorem length_append_cons (before after : List Stored) (stored : Stored) :
    (before ++ stored :: after).length = before.length + 1 + after.length := by
  simp
  omega

/-- Reading an element stores its tree. -/
def Stores (parent : Option ℕ) (elements : List Stored) (a : Element × ℕ × List Stored × Bytes)
    (b : Element × Bytes) : Prop :=
  ∃ block, IsBlock parent elements.length b.1.tree block ∧
    a = (b.1, elements.length, elements ++ block, b.2)

/-- Reading a field stores its element; the final one is stored as well. -/
inductive StoresField (parent : ℕ) (elements : List Stored) :
    Option (Field × ℕ) × List Stored × Bytes → Option Field × Bytes → Prop
  | final {block s} (h : block.length = 1) :
    StoresField parent elements (none, elements ++ block, s) (none, s)
  | field {field block s}
    (h : IsBlock (some parent) elements.length (Field.element field).tree block) :
    StoresField parent elements (some (field, elements.length), elements ++ block, s)
      (some field, s)

/-- Reading fields stores their elements, and the pointers to them in the object. -/
def StoresFields (before after : List Stored) (stored : Stored)
    (a : List Field × List Stored × Bytes) (b : List Field × Bytes) : Prop :=
  ∃ inside markers, markers.length = 1 ∧
    AreBlocks before.length (before.length + 1 + after.length) (fieldTrees b.1) inside ∧
    a = (b.1, before ++ { stored with
        fields := stored.fields ++ starts (before.length + 1 + after.length) (fieldTrees b.1) } ::
      (after ++ inside ++ markers), b.2)

/-- Reading the children of a union stores them, and the pointers to them in the union. -/
def StoresUnion (before after : List Stored) (stored : Stored)
    (a : List Element × List Stored × Bytes) (b : List Element × Bytes) : Prop :=
  ∃ inside markers, markers.length = 1 ∧
    AreBlocks before.length (before.length + 1 + after.length) (unionTrees b.1) inside ∧
    a = (b.1, before ++ { stored with
        children :=
          stored.children ++ starts (before.length + 1 + after.length) (unionTrees b.1) } ::
      (after ++ inside ++ markers), b.2)

/-- Reading a shape stores what is inside, and all but the element itself. -/
def StoresShape (parent : Option ℕ) (elements : List Stored)
    (a : Shape × Option ℕ × List Stored × Bytes) (b : Shape × Option ℕ × Bytes) : Prop :=
  ∃ stored inside markers, markers.length = b.1.finals ∧
    AreBlocks elements.length (elements.length + 1) b.1.trees inside ∧
    (∀ element : Element, element.shape = b.1 →
      { stored with element := element } = entry parent elements.length element b.1.trees) ∧
    a = (b.1, b.2.1, elements ++ stored :: (inside ++ markers), b.2.2)

theorem tree_eq_of_final {element : Element} (h : element.shape = .final) :
    element.tree = .node element [] := by
  obtain ⟨name, binarySchema, maybeFixedSize, shape⟩ := element
  obtain rfl : shape = .final := h
  rw [Element.tree, Shape.trees]

/-- A final marker takes one place. -/
theorem length_of_final {parent : Option ℕ} {p : ℕ} {element : Element} {block : List Stored}
    (h : element.shape = .final) (hblock : IsBlock parent p element.tree block) :
    block.length = 1 := by
  rw [hblock.length_eq, tree_eq_of_final h, size, sizes, h]
  rfl

/-- A type with one child. -/
theorem storesShape_child {parent : Option ℕ} {elements : List Stored} {shape : Shape}
    {size : Option ℕ} {child : Element} {block : List Stored} {s : Bytes}
    (hblock : IsBlock (some elements.length) (pushElement parent elements).length child.tree block)
    (htrees : shape.trees = [child.tree]) (hobject : shape.isObject = false)
    (hended : shape.isEnded = false) :
    StoresShape parent elements
      (shape, size, pushChild elements.length (pushElement parent elements).length
        (pushElement parent elements ++ block), s) (shape, size, s) := by
  have hlength : (pushElement parent elements).length = elements.length + 1 := by
    rw [pushElement, List.length_append, List.length_singleton]
  rw [hlength] at hblock ⊢
  refine ⟨{ parent := parent, children := [elements.length + 1] }, block, [], ?_, ?_, ?_, ?_⟩
  · rw [Shape.finals, hended]
    rfl
  · rw [htrees, AreBlocks]
    exact ⟨block, [], (List.append_nil _).symm, hblock, by rw [AreBlocks]⟩
  · intro element helement
    subst helement
    rw [entry, hobject, htrees, starts_cons]
    simp [starts, allPlaces]
  · rw [pushElement, List.append_assoc, List.singleton_append, pushChild, modify_append_cons,
      List.append_nil]
    rfl

/-- A type with nothing inside. -/
theorem storesShape_none {parent : Option ℕ} {elements : List Stored} {shape : Shape}
    {size : Option ℕ} {s : Bytes} (htrees : shape.trees = []) (hobject : shape.isObject = false)
    (hended : shape.isEnded = false) :
    StoresShape parent elements (shape, size, pushElement parent elements, s) (shape, size, s) := by
  refine ⟨{ parent := parent }, [], [], ?_, ?_, ?_, rfl⟩
  · rw [Shape.finals, hended]
    rfl
  · rw [htrees, AreBlocks]
  · intro element helement
    subst helement
    rw [entry, hobject, htrees]
    rfl

section

variable {readTypeAt' :
    Option ℕ → Bytes → List Stored → Bytes → Except Error (Element × ℕ × List Stored × Bytes)}
  {readType' : Bytes → Bytes → Except Error (Element × Bytes)}
  (hread : ∀ parent name elements s,
    SameOutcome (Stores parent elements) (readTypeAt' parent name elements s) (readType' name s))

include hread

theorem readFieldAt_same (parent : ℕ) (elements : List Stored) (s : Bytes) :
    SameOutcome (StoresField parent elements) (readFieldAt readTypeAt' parent elements s)
      (readField readType' s) := by
  unfold readFieldAt readField
  refine .bind_same fun ⟨fieldFlags, s⟩ => .bind_same fun read => .bind_same fun ⟨name, s⟩ =>
    .bind_same fun ⟨naliases, s⟩ => .bind_same fun ⟨aliases, s⟩ => .bind (hread _ _ _ _) ?_
  rintro _ ⟨element, s⟩ ⟨block, hblock, rfl⟩
  refine .bind_same fun ⟨defaultPresent, s⟩ => ?_
  dsimp only
  split_ifs
  all_goals
    refine .bind_same fun ⟨defaultValue, s⟩ => ?_
    dsimp only
    cases hshape : element.shape with
    | final => exact .ok (.final (length_of_final hshape hblock))
    | _ => exact .ok (.field hblock)

theorem readFieldsAt_same (n : ℕ) : ∀ (before after : List Stored) (stored : Stored) (s : Bytes),
    SameOutcome (StoresFields before after stored)
      (readFieldsAt readTypeAt' before.length n (before ++ stored :: after) s)
      (readFields readType' n s) := by
  induction n with
  | zero => exact fun _ _ _ _ => .error _
  | succ n ih =>
    intro before after stored s
    rw [readFieldsAt, readFields]
    refine .bind (readFieldAt_same hread _ _ _) ?_
    rintro _ _ (⟨hblock⟩ | ⟨hblock⟩)
    · rename_i block s
      refine .ok ⟨[], block, hblock, ?_, ?_⟩
      · rw [fieldTrees, AreBlocks]
      · simp [fieldTrees, starts, allPlaces]
    · rename_i field block s
      rw [length_append_cons] at hblock
      have hpush : pushField before.length (before ++ stored :: after).length
          ((before ++ stored :: after) ++ block) =
            before ++ { stored with
              fields := stored.fields ++ [before.length + 1 + after.length] } ::
            (after ++ block) := by
        rw [pushField, length_append_cons, List.append_assoc, List.cons_append,
          modify_append_cons]
      dsimp only
      rw [hpush]
      refine .bind (ih before (after ++ block) _ s) ?_
      rintro _ ⟨fields, s⟩ ⟨inside, markers, hmarkers, hinside, rfl⟩
      obtain ⟨flags, name, aliases, element, value⟩ := field
      rw [List.length_append, hblock.length_eq, ← Nat.add_assoc] at hinside
      refine .ok ⟨block ++ inside, markers, hmarkers, ?_, ?_⟩
      · rw [fieldTrees, AreBlocks]
        exact ⟨block, inside, rfl, hblock, hinside⟩
      · dsimp only
        rw [fieldTrees, starts_cons, List.length_append, hblock.length_eq, Field.element]
        simp [Nat.add_assoc]

theorem readUnionAt_same (name : Bytes) (n : ℕ) :
    ∀ (before after : List Stored) (stored : Stored) (s : Bytes),
    SameOutcome (StoresUnion before after stored)
      (readUnionAt readTypeAt' before.length name n (before ++ stored :: after) s)
      (readUnion readType' name n s) := by
  induction n with
  | zero => exact fun _ _ _ _ => .error _
  | succ n ih =>
    intro before after stored s
    rw [readUnionAt, readUnion]
    refine .bind (hread _ _ _ _) ?_
    rintro _ ⟨child, s⟩ ⟨block, hblock, rfl⟩
    have hplace := hblock
    rw [length_append_cons] at hplace
    have hpush : pushChild before.length (before ++ stored :: after).length
        ((before ++ stored :: after) ++ block) =
          before ++ { stored with
            children := stored.children ++ [before.length + 1 + after.length] } ::
          (after ++ block) := by
      rw [pushChild, length_append_cons, List.append_assoc, List.cons_append, modify_append_cons]
    have hnext : SameOutcome (StoresUnion before after stored)
        (readUnionAt readTypeAt' before.length name n
          (pushChild before.length (before ++ stored :: after).length
            ((before ++ stored :: after) ++ block)) s >>=
          fun r => pure (child :: r.1, r.2.1, r.2.2))
        (readUnion readType' name n s >>= fun r => pure (child :: r.1, r.2)) := by
      rw [hpush]
      refine .bind (ih before (after ++ block) _ s) ?_
      rintro _ ⟨children, s⟩ ⟨inside, markers, hmarkers, hinside, rfl⟩
      rw [List.length_append, hplace.length_eq, ← Nat.add_assoc] at hinside
      refine .ok ⟨block ++ inside, markers, hmarkers, ?_, ?_⟩
      · rw [unionTrees, AreBlocks]
        exact ⟨block, inside, rfl, hplace, hinside⟩
      · dsimp only
        rw [unionTrees, starts_cons, List.length_append, hplace.length_eq]
        simp [Nat.add_assoc]
    dsimp only
    cases hshape : child.shape with
    | final =>
      refine .ok ⟨[], block, length_of_final hshape hblock, ?_, ?_⟩
      · rw [unionTrees, AreBlocks]
      · simp [unionTrees, starts, allPlaces]
    | _ => exact hnext

theorem readShapeAt_same (parent : Option ℕ) (name : Bytes) (type : Format.TypeCode)
    (elements : List Stored) (s : Bytes) :
    SameOutcome (StoresShape parent elements)
      (readShapeAt readTypeAt' elements.length name type (pushElement parent elements) s)
      (readShape readType' name type s) := by
  cases type
  case kObject =>
    refine .bind_same fun ⟨objectFlags, s⟩ =>
      .bind (readFieldsAt_same hread _ elements [] { parent := parent } s) ?_
    rintro _ ⟨fields, s⟩ ⟨inside, markers, hmarkers, hinside, rfl⟩
    refine .ok ⟨_, inside, markers, hmarkers, ?_, ?_, rfl⟩
    · rw [Shape.trees]
      exact hinside
    · intro element helement
      rw [entry, helement, Shape.trees]
      rfl
  case kUnion =>
    refine .bind (readUnionAt_same hread name _ elements [] { parent := parent } s) ?_
    rintro _ ⟨children, s⟩ ⟨inside, markers, hmarkers, hinside, rfl⟩
    refine .ok ⟨_, inside, markers, hmarkers, ?_, ?_, rfl⟩
    · rw [Shape.trees]
      exact hinside
    · intro element helement
      rw [entry, helement, Shape.trees]
      rfl
  case kEnum =>
    refine .bind (hread _ _ _ _) ?_
    rintro _ ⟨child, s⟩ ⟨block, hblock, rfl⟩
    refine .bind_same fun ⟨nvalues, s⟩ => .bind_same fun ⟨items, s⟩ => .ok ?_
    exact storesShape_child hblock rfl rfl rfl
  case kArray =>
    refine .bind (hread _ _ _ _) ?_
    rintro _ ⟨child, s⟩ ⟨block, hblock, rfl⟩
    exact .ok (storesShape_child hblock rfl rfl rfl)
  case kMap =>
    refine .bind (hread _ _ _ _) ?_
    rintro _ ⟨child, s⟩ ⟨block, hblock, rfl⟩
    exact .ok (storesShape_child hblock rfl rfl rfl)
  case kFixedArray =>
    refine .bind_same fun ⟨arraySize, s⟩ => .bind (hread _ _ _ _) ?_
    rintro _ ⟨child, s⟩ ⟨block, hblock, rfl⟩
    exact .ok (storesShape_child hblock rfl rfl rfl)
  case kFixedInt =>
    unfold readShapeAt readShape
    cases value (readU8 s) with
    | error e => exact .error e
    | ok read => exact .ok (storesShape_none rfl rfl rfl)
  case kFixedUInt =>
    unfold readShapeAt readShape
    cases value (readU8 s) with
    | error e => exact .error e
    | ok read => exact .ok (storesShape_none rfl rfl rfl)
  all_goals exact .ok (storesShape_none rfl rfl rfl)

end

/-- What is left to do once the shape is read. -/
theorem setElement_same {parent : Option ℕ} {name s : Bytes} {elements : List Stored}
    {x : Except Error (Shape × Option ℕ × List Stored × Bytes)}
    {y : Except Error (Shape × Option ℕ × Bytes)}
    (h : SameOutcome (StoresShape parent elements) x y) :
    SameOutcome (Stores parent elements)
      (x >>= fun r => pure (Element.mk name (recorded s r.2.2.2) r.2.1 r.1, elements.length,
        setElement elements.length (.mk name (recorded s r.2.2.2) r.2.1 r.1) r.2.2.1, r.2.2.2))
      (y >>= fun r => pure (Element.mk name (recorded s r.2.2) r.2.1 r.1, r.2.2)) := by
  refine .bind h ?_
  rintro _ ⟨shape, size, rest⟩ ⟨stored, inside, markers, hmarkers, hinside, hstored, rfl⟩
  refine .ok ⟨entry parent elements.length (.mk name (recorded s rest) size shape) shape.trees ::
    (inside ++ markers), ?_, ?_⟩
  · rw [Element.tree, IsBlock]
    exact ⟨inside, markers, rfl, hinside, hmarkers⟩
  · dsimp only
    rw [setElement, modify_append_cons, hstored _ rfl]

theorem readTypeAt_same (depth : ℕ) : ∀ (parent : Option ℕ) (name : Bytes) (elements : List Stored)
    (s : Bytes), SameOutcome (Stores parent elements) (readTypeAt depth parent name elements s)
      (readType depth name s) := by
  induction depth with
  | zero => exact fun _ _ _ _ => .error _
  | succ depth ih =>
    intro parent name elements s
    rw [readTypeAt, readType]
    refine .bind_same fun ⟨type, rest⟩ => ?_
    dsimp only
    split_ifs with htype
    · exact .error _
    · cases hcode : Format.TypeCode.ofUInt64 type with
      | none => exact setElement_same (.ok (storesShape_none rfl rfl rfl))
      | some code => exact setElement_same (readShapeAt_same ih parent name code elements rest)

/-! ### The tree of pointers -/

mutual

theorem places_sublist (p : ℕ) :
    ∀ t : NodeTree Element, (places p t).preorder.Sublist (List.range' p (size t))
  | .node element subtrees => by
    rw [places, NodeTree.preorder_node, size, List.range'_succ, ← List.range'_append_1]
    exact ((allPlaces_sublist (p + 1) subtrees).trans (List.sublist_append_left _ _)).cons_cons p

theorem allPlaces_sublist (p : ℕ) :
    ∀ ts : List (NodeTree Element),
      (NodeTree.preorders (allPlaces p ts)).Sublist (List.range' p (sizes ts))
  | [] => by
    rw [allPlaces, NodeTree.preorders]
    exact List.nil_sublist _
  | t :: ts => by
    rw [allPlaces, NodeTree.preorders, sizes, ← List.range'_append_1]
    exact (places_sublist p t).append (allPlaces_sublist (p + size t) ts)

end

theorem nodup_starts (p : ℕ) (ts : List (NodeTree Element)) : (starts p ts).Nodup :=
  ((NodeTree.roots_sublist _).trans (allPlaces_sublist p ts)).nodup List.nodup_range'

section

variable (elements : List Stored)

/-- The pointers of an element to those inside of it. -/
def listed (p : ℕ) : List ℕ :=
  match elements[p]? with
  | some stored => if stored.children.length ≠ 0 then stored.children else stored.fields
  | none => []

/-- The pointer to the parent; of what is no element, something else than nothing. -/
def parentOf (p : ℕ) : Option ℕ :=
  match elements[p]? with
  | some stored => stored.parent
  | none => some p

end

variable {elements : List Stored}

theorem getElem?_entry {parent : Option ℕ} {before after block : List Stored} {element : Element}
    {subtrees : List (NodeTree Element)}
    (hblock : IsBlock parent before.length (.node element subtrees) block)
    (h : elements = before ++ block ++ after) :
    elements[before.length]? = some (entry parent before.length element subtrees) := by
  rw [IsBlock] at hblock
  obtain ⟨inside, markers, rfl, -, -⟩ := hblock
  rw [h, List.append_assoc, List.cons_append, List.getElem?_append_right (Nat.le_refl _),
    Nat.sub_self]
  rfl

theorem listed_entry {parent : Option ℕ} {p : ℕ} {element : Element}
    {subtrees : List (NodeTree Element)}
    (h : elements[p]? = some (entry parent p element subtrees)) :
    listed elements p = starts (p + 1) subtrees := by
  rw [listed, h]
  cases hobject : element.shape.isObject with
  | true => simp [entry, hobject]
  | false =>
    simp only [entry, hobject, Bool.false_eq_true, if_false]
    split_ifs with hlength
    · rfl
    · exact (List.length_eq_zero_iff.mp (not_not.mp hlength)).symm

theorem parentOf_places {parent : Option ℕ} {before after block : List Stored}
    {t : NodeTree Element} (hblock : IsBlock parent before.length t block)
    (h : elements = before ++ block ++ after) : parentOf elements before.length = parent := by
  obtain ⟨element, subtrees⟩ := t
  rw [parentOf, getElem?_entry hblock h]
  rfl

mutual

/-- **The pointers link the tree.** -/
theorem linked_places : ∀ (t : NodeTree Element) (parent : Option ℕ)
    (before after block : List Stored), IsBlock parent before.length t block →
    elements = before ++ block ++ after →
    Linked (listed elements) (parentOf elements) (places before.length t)
  | .node element subtrees, parent, before, after, block, hblock, h => by
    have hentry := getElem?_entry hblock h
    rw [IsBlock] at hblock
    obtain ⟨inside, markers, rfl, hinside, -⟩ := hblock
    have hlength : (before ++ [entry parent before.length element subtrees]).length =
        before.length + 1 := by simp
    have hall := allLinked_allPlaces subtrees before.length
      (before ++ [entry parent before.length element subtrees]) (markers ++ after) inside
      (hlength ▸ hinside) (by rw [h]; simp)
    rw [hlength] at hall
    rw [places, Linked]
    exact ⟨listed_entry hentry, nodup_starts _ _, hall⟩

theorem allLinked_allPlaces : ∀ (ts : List (NodeTree Element)) (parent : ℕ)
    (before after blocks : List Stored), AreBlocks parent before.length ts blocks →
    elements = before ++ blocks ++ after →
    AllLinked (listed elements) (parentOf elements) parent (allPlaces before.length ts)
  | [], _, _, _, _, _, _ => by
    rw [allPlaces, AllLinked]
    trivial
  | t :: ts, parent, before, after, blocks, hblocks, h => by
    rw [AreBlocks] at hblocks
    obtain ⟨block, rest, rfl, hblock, hrest⟩ := hblocks
    have hhead : elements = before ++ block ++ (rest ++ after) := by
      rw [h]
      simp
    have hlength : (before ++ block).length = before.length + size t := by
      rw [List.length_append, hblock.length_eq]
    have htail := allLinked_allPlaces ts parent (before ++ block) after rest (hlength ▸ hrest)
      (by rw [h]; simp)
    rw [hlength] at htail
    rw [allPlaces, AllLinked, root_places]
    exact ⟨parentOf_places hblock hhead, linked_places t _ before _ _ hblock hhead, htail⟩

end

mutual

/-- What the pointers point to. -/
theorem map_places : ∀ (t : NodeTree Element) (parent : Option ℕ)
    (before after block : List Stored), IsBlock parent before.length t block →
    elements = before ++ block ++ after →
    (places before.length t).preorder.map (fun p => elements[p]?.map Stored.element) =
      t.preorder.map some
  | .node element subtrees, parent, before, after, block, hblock, h => by
    have hentry := getElem?_entry hblock h
    rw [IsBlock] at hblock
    obtain ⟨inside, markers, rfl, hinside, -⟩ := hblock
    have hlength : (before ++ [entry parent before.length element subtrees]).length =
        before.length + 1 := by simp
    have hall := map_allPlaces subtrees before.length
      (before ++ [entry parent before.length element subtrees]) (markers ++ after) inside
      (hlength ▸ hinside) (by rw [h]; simp)
    rw [hlength] at hall
    rw [places, NodeTree.preorder_node, NodeTree.preorder_node, List.map_cons, List.map_cons, hall,
      hentry]
    rfl

theorem map_allPlaces : ∀ (ts : List (NodeTree Element)) (parent : ℕ)
    (before after blocks : List Stored), AreBlocks parent before.length ts blocks →
    elements = before ++ blocks ++ after →
    (NodeTree.preorders (allPlaces before.length ts)).map
        (fun p => elements[p]?.map Stored.element) =
      (NodeTree.preorders ts).map some
  | [], _, _, _, _, _, _ => by
    rw [allPlaces, NodeTree.preorders, NodeTree.preorders]
    rfl
  | t :: ts, parent, before, after, blocks, hblocks, h => by
    rw [AreBlocks] at hblocks
    obtain ⟨block, rest, rfl, hblock, hrest⟩ := hblocks
    have hlength : (before ++ block).length = before.length + size t := by
      rw [List.length_append, hblock.length_eq]
    have hhead := map_places t (some parent) before (rest ++ after) block hblock (by rw [h]; simp)
    have htail := map_allPlaces ts parent (before ++ block) after rest (hlength ▸ hrest)
      (by rw [h]; simp)
    rw [hlength] at htail
    rw [allPlaces, NodeTree.preorders, NodeTree.preorders, List.map_append, List.map_append, hhead,
      htail]

end

/-! ### Iteration -/

variable {n p : ℕ} {r : Option ℕ}

theorem nextSibling_append {before after : List ℕ} (h : p ∉ before) :
    nextSibling (before ++ p :: after) p = .ok after.head? := by
  have hdrop : (before ++ p :: after).dropWhile (· ≠ p) = p :: after := by
    rw [List.dropWhile_append_of_pos]
    · simp
    · intro q hq
      exact decide_eq_true fun heq => h (heq ▸ hq)
  rw [nextSibling, hdrop]

/-- What an element with something inside lists are its children, or its fields. -/
theorem listed_eq {q : ℕ} {qs : List ℕ} (h : listed elements p = q :: qs) :
    ∃ stored, elements[p]? = some stored ∧
      (stored.children = q :: qs ∨ stored.children = [] ∧ stored.fields = q :: qs) := by
  rw [listed] at h
  cases hp : elements[p]? with
  | none =>
    rw [hp] at h
    cases h
  | some stored =>
    rw [hp] at h
    dsimp only at h
    refine ⟨stored, rfl, ?_⟩
    split_ifs at h with hlength
    · exact .inl h
    · exact .inr ⟨List.length_eq_zero_iff.mp (not_not.mp hlength), h⟩

theorem deref_eq {stored : Stored} (h : elements[p]? = some stored) :
    deref elements p = .ok stored := by rw [deref, h]

/-- What an element lists is an element. -/
theorem parent_eq {q : ℕ} {ps qs : List ℕ} (hp : parentOf elements p = some q)
    (hq : listed elements q = ps ++ p :: qs) :
    ∃ stored, elements[p]? = some stored ∧ stored.parent = some q := by
  rw [parentOf] at hp
  cases hstored : elements[p]? with
  | none =>
    rw [hstored] at hp
    obtain rfl : p = q := Option.some.inj hp
    rw [listed, hstored] at hq
    exact absurd hq (List.append_ne_nil_of_right_ne_nil _ (List.cons_ne_nil _ _)).symm
  | some stored =>
    rw [hstored] at hp
    exact ⟨stored, rfl, hp⟩

theorem climb_succ {q : ℕ} {ps qs : List ℕ} (hp : parentOf elements p = some q)
    (hq : listed elements q = ps ++ p :: qs) (hps : p ∉ ps) (n : ℕ) :
    climb elements (n + 1) p =
      match qs.head? with
      | none => climb elements n q
      | some sibling => .ok (some sibling) := by
  obtain ⟨child, hchild, hparent⟩ := parent_eq hp hq
  obtain ⟨x, xs, hx⟩ : ∃ x xs, ps ++ p :: qs = x :: xs :=
    List.exists_cons_of_ne_nil (List.append_ne_nil_of_right_ne_nil _ (List.cons_ne_nil _ _))
  obtain ⟨stored, hstored, hlisted⟩ := listed_eq (hq.trans hx)
  rw [← hx] at hlisted
  rw [climb, deref_eq hchild]
  simp only [bind, Except.bind, hparent, deref_eq hstored]
  rcases hlisted with hchildren | ⟨hchildren, hfields⟩
  · rw [hchildren, if_pos (by simp), nextSibling_append hps]
    cases qs.head? <;> rfl
  · rw [hchildren, hfields, if_neg (by simp), if_pos (by simp), nextSibling_append hps]
    cases qs.head? <;> rfl

theorem top_eq (h : parentOf elements p = none) :
    ∃ stored, elements[p]? = some stored ∧ stored.parent = none := by
  rw [parentOf] at h
  cases hstored : elements[p]? with
  | none =>
    rw [hstored] at h
    cases h
  | some stored =>
    rw [hstored] at h
    exact ⟨stored, rfl, h⟩

/-- The loop finds what follows, and both of its assertions hold. -/
theorem climb_of_after (h : After (listed elements) (parentOf elements) n p r) :
    ∀ fuel, n < fuel → climb elements fuel p = .ok r := by
  induction h with
  | top h =>
    intro fuel hfuel
    obtain ⟨m, rfl⟩ := Nat.exists_eq_add_one_of_ne_zero (Nat.ne_of_gt hfuel)
    obtain ⟨stored, hstored, hparent⟩ := top_eq h
    rw [climb, deref_eq hstored]
    simp only [bind, Except.bind, hparent]
    rfl
  | sibling hp hq hbefore =>
    intro fuel hfuel
    obtain ⟨m, rfl⟩ := Nat.exists_eq_add_one_of_ne_zero (Nat.ne_of_gt hfuel)
    exact climb_succ hp hq hbefore m
  | up hp hq hbefore _ ih =>
    intro fuel hfuel
    obtain ⟨m, rfl⟩ := Nat.exists_eq_add_one_of_ne_zero (Nat.ne_of_gt (Nat.zero_lt_of_lt hfuel))
    rw [climb_succ hp hq hbefore m]
    exact ih m (Nat.lt_of_succ_lt_succ hfuel)

theorem After.exists_stored (h : After (listed elements) (parentOf elements) n p r) :
    ∃ stored, elements[p]? = some stored := by
  cases h with
  | top h => exact (top_eq h).imp fun _ => And.left
  | sibling hp hq => exact (parent_eq hp hq).imp fun _ => And.left
  | up hp hq => exact (parent_eq hp hq).imp fun _ => And.left

theorem nextElement_of_next (h : Next (listed elements) (parentOf elements) elements.length p r) :
    nextElement elements p = .ok r := by
  cases h with
  | child h =>
    obtain ⟨stored, hstored, hlisted⟩ := listed_eq h
    rw [nextElement, deref_eq hstored]
    simp only [bind, Except.bind]
    rcases hlisted with hchildren | ⟨hchildren, hfields⟩
    · rw [hchildren]
      rfl
    · rw [hchildren, hfields]
      rfl
  | after h hr hn =>
    obtain ⟨stored, hstored⟩ := After.exists_stored hr
    have hnil : stored.children = [] ∧ stored.fields = [] := by
      rw [listed, hstored] at h
      dsimp only at h
      split_ifs at h with hlength
      · exact absurd (congrArg List.length h) hlength
      · exact ⟨List.length_eq_zero_iff.mp (not_not.mp hlength), h⟩
    rw [nextElement, deref_eq hstored]
    simp only [bind, Except.bind, hnil.1, hnil.2]
    exact climb_of_after hr _ hn

theorem iterate_of_visits {ps : List ℕ}
    (h : Visits (listed elements) (parentOf elements) elements.length p ps r) (hr : r = none) :
    ∀ fuel, ps.length ≤ fuel → iterate elements fuel (some p) = .ok ps := by
  induction h with
  | last h =>
    intro fuel hfuel
    obtain ⟨m, rfl⟩ := Nat.exists_eq_add_one_of_ne_zero (Nat.ne_of_gt hfuel)
    subst hr
    rw [iterate, nextElement_of_next h]
    cases m <;> rfl
  | step h _ ih =>
    intro fuel hfuel
    obtain ⟨m, rfl⟩ := Nat.exists_eq_add_one_of_ne_zero (Nat.ne_of_gt (Nat.zero_lt_of_lt hfuel))
    rw [iterate, nextElement_of_next h]
    simp only [bind, Except.bind, ih hr m (Nat.le_of_succ_le_succ hfuel)]
    rfl

theorem length_places (p : ℕ) (t : NodeTree Element) : (places p t).preorder.length ≤ size t := by
  have := (places_sublist p t).length_le
  rwa [List.length_range'] at this

/-- The parser with and without `elements_`. -/
theorem parseElements_same (schema name : Bytes) :
    SameOutcome (fun a root => a.1 = root ∧ IsBlock none 0 root.tree a.2)
      (parseElements schema name) (parse schema name) := by
  unfold parseElements parse
  refine .bind (readTypeAt_same _ none name [] schema) ?_
  rintro _ ⟨root, s⟩ ⟨block, hblock, rfl⟩
  exact .ok ⟨rfl, hblock⟩

theorem visited_of_isBlock {root : Element} (h : IsBlock none 0 root.tree elements) :
    visited elements = .ok (places 0 root.tree).preorder := by
  have helements : elements = [] ++ elements ++ [] := by simp
  have hafter : After (listed elements) (parentOf elements) 0 (places 0 root.tree).root none := by
    rw [root_places]
    exact .top (parentOf_places h helements)
  have hle : 0 + (places 0 root.tree).preorder.length ≤ elements.length := by
    rw [h.length_eq, Nat.zero_add]
    exact length_places 0 root.tree
  have hvisits :=
    (visits_preorder _ (linked_places root.tree none [] [] _ h helements) hafter).mono hle
  rw [root_places] at hvisits
  rw [Nat.zero_add] at hle
  exact iterate_of_visits hvisits rfl _ hle

/-- **Every element is visited once, in pre-order.** The loop over the elements of a parser ends
without a failed assertion, at pointers that are all different, to the root and to all elements
inside of it. -/
theorem visited_parseElements (schema name : Bytes) {root : Element}
    (h : parseElements schema name = .ok (root, elements)) :
    ∃ pointers, visited elements = .ok pointers ∧ pointers.Nodup ∧
      pointers.map (fun p => elements[p]?.map Stored.element) = root.tree.preorder.map some := by
  obtain ⟨_, -, rfl, hblock⟩ := (parseElements_same schema name).exists_ok h
  exact ⟨_, visited_of_isBlock hblock, (places_sublist 0 root.tree).nodup List.nodup_range',
    map_places root.tree none [] [] _ hblock (by simp)⟩

theorem visited_parseElements_union : ∃ root elements,
    parseElements [21, 16, 0, 0, 1, 97, 0, 18, 2, 0, 0, 0, 0, 0, 0, 1, 0] [] = .ok (root, elements) ∧
    ∃ pointers, visited elements = .ok pointers ∧ pointers.Nodup ∧
      pointers.map (fun p => elements[p]?.map Stored.element) = root.tree.preorder.map some :=
  ⟨_, _, rfl,
    visited_parseElements [21, 16, 0, 0, 1, 97, 0, 18, 2, 0, 0, 0, 0, 0, 0, 1, 0] [] rfl⟩

end Mjlib.Telemetry.BinarySchemaParser
