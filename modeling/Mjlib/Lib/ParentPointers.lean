import Mathlib

/-!
# Pre-order through parent pointers

The nodes of a tree know the list of their children and their parent.  To go over all of them
without a stack, one goes to the first child, and where there is none back up to the first ancestor
with a sibling to its right: `After n p r` says that the search from `p` goes up `n` times and finds
`r`, or nothing, and `Next` is the whole step.  `visits_preorder` says that this goes over the tree
in pre-order.
-/

namespace ParentPointers

variable {α : Type*}

/-- A tree of nodes. -/
inductive NodeTree (α : Type*)
  | node (root : α) (subtrees : List (NodeTree α))

namespace NodeTree

def root : NodeTree α → α
  | node p _ => p

mutual

/-- Every node before those below it. -/
def preorder : NodeTree α → List α
  | node p subtrees => p :: preorders subtrees

/-- The trees one after the other. -/
def preorders : List (NodeTree α) → List α
  | [] => []
  | t :: ts => preorder t ++ preorders ts

end

end NodeTree

theorem NodeTree.preorder_node (p : α) (subtrees : List (NodeTree α)) :
    (NodeTree.node p subtrees).preorder = p :: NodeTree.preorders subtrees := by
  rw [NodeTree.preorder]

/-- The roots of trees come in their order. -/
theorem NodeTree.roots_sublist :
    ∀ ts : List (NodeTree α), (ts.map NodeTree.root).Sublist (NodeTree.preorders ts)
  | [] => List.nil_sublist _
  | .node p subtrees :: ts => by
    rw [NodeTree.preorders, NodeTree.preorder_node, List.map_cons, List.cons_append]
    exact ((NodeTree.roots_sublist ts).trans (List.sublist_append_right _ _)).cons_cons p

section

variable (listed : α → List α) (parent : α → Option α)

mutual

/-- The nodes of the tree list their children, which know their parent. -/
def Linked : NodeTree α → Prop
  | .node p subtrees =>
    listed p = subtrees.map NodeTree.root ∧ (subtrees.map NodeTree.root).Nodup ∧
      AllLinked p subtrees

/-- The trees are linked, and below `p`. -/
def AllLinked (p : α) : List (NodeTree α) → Prop
  | [] => True
  | t :: ts => parent t.root = some p ∧ Linked t ∧ AllLinked p ts

end

/-- What follows all that is below a node, going up `n` times to find it. -/
inductive After : ℕ → α → Option α → Prop
  | top {p} (h : parent p = none) : After 0 p none
  | sibling {p q r before after} (hp : parent p = some q)
    (hq : listed q = before ++ p :: r :: after) (hbefore : p ∉ before) : After 0 p (some r)
  | up {n p q r before} (hp : parent p = some q) (hq : listed q = before ++ [p])
    (hbefore : p ∉ before) (hr : After n q r) : After (n + 1) p r

/-- What follows a node, going up less often than the bound. -/
inductive Next (bound : ℕ) : α → Option α → Prop
  | child {p q qs} (h : listed p = q :: qs) : Next bound p (some q)
  | after {n p r} (h : listed p = []) (hr : After listed parent n p r) (hn : n < bound) :
    Next bound p r

/-- From a node one goes over a list of nodes, and then to another one, or nowhere. -/
inductive Visits (bound : ℕ) : α → List α → Option α → Prop
  | last {p r} (h : Next listed parent bound p r) : Visits bound p [p] r
  | step {p q ps r} (h : Next listed parent bound p (some q)) (hq : Visits bound q ps r) :
    Visits bound p (p :: ps) r

end

variable {listed : α → List α} {parent : α → Option α} {bound bound' n : ℕ} {p q : α}
  {ps qs : List α} {r : Option α}

theorem Next.mono (h : Next listed parent bound p r) (hle : bound ≤ bound') :
    Next listed parent bound' p r := by
  cases h with
  | child h => exact .child h
  | after h hr hn => exact .after h hr (Nat.lt_of_lt_of_le hn hle)

theorem Visits.mono (h : Visits listed parent bound p ps r) (hle : bound ≤ bound') :
    Visits listed parent bound' p ps r := by
  induction h with
  | last h => exact .last (h.mono hle)
  | step h _ ih => exact .step (h.mono hle) ih

theorem Visits.append (h : Visits listed parent bound p ps (some q))
    (hq : Visits listed parent bound q qs r) : Visits listed parent bound p (ps ++ qs) r := by
  generalize hr : some q = r' at h
  induction h with
  | last h =>
    subst hr
    exact .step h hq
  | step h _ ih => exact .step h (ih hr)

mutual

/-- **The tree is gone over in pre-order.** -/
theorem visits_preorder {n : ℕ} {r : Option α} : ∀ (t : NodeTree α), Linked listed parent t →
    After listed parent n t.root r →
    Visits listed parent (n + t.preorder.length) t.root t.preorder r
  | .node p [], h, hr => by
    rw [Linked] at h
    exact .last (.after h.1 hr (Nat.lt_succ_self n))
  | .node p (t :: ts), h, hr => by
    rw [Linked] at h
    obtain ⟨hlisted, hnodup, hall⟩ := h
    rw [NodeTree.preorder_node, List.length_cons, ← Nat.add_assoc, Nat.add_right_comm]
    exact .step (.child hlisted) (visits_preorders (t :: ts) [] hlisted hnodup hall hr t ts rfl)

theorem visits_preorders {n : ℕ} {r : Option α} {p : α} : ∀ (subtrees : List (NodeTree α))
    (before : List α), listed p = before ++ subtrees.map NodeTree.root →
    (before ++ subtrees.map NodeTree.root).Nodup → AllLinked listed parent p subtrees →
    After listed parent n p r → ∀ t ts, subtrees = t :: ts →
    Visits listed parent (n + 1 + (NodeTree.preorders subtrees).length) t.root
      (NodeTree.preorders subtrees) r
  | [t], before, hlisted, hnodup, hall, hr, _, _, rfl => by
    rw [AllLinked] at hall
    obtain ⟨hparent, hlinked, -⟩ := hall
    have hbefore : t.root ∉ before := by
      exact fun hmem => (List.nodup_append.mp hnodup).2.2 _ hmem _ (List.mem_singleton_self _) rfl
    simp only [NodeTree.preorders, List.append_nil]
    exact visits_preorder t hlinked (.up hparent hlisted hbefore hr)
  | t :: u :: ts, before, hlisted, hnodup, hall, hr, _, _, rfl => by
    rw [AllLinked] at hall
    obtain ⟨hparent, hlinked, hall⟩ := hall
    have hbefore : t.root ∉ before := by
      exact fun hmem => (List.nodup_append.mp hnodup).2.2 _ hmem _ List.mem_cons_self rfl
    have hhead : Visits listed parent (0 + t.preorder.length) t.root t.preorder (some u.root) :=
      visits_preorder t hlinked (.sibling hparent hlisted hbefore)
    have htail : Visits listed parent (n + 1 + (NodeTree.preorders (u :: ts)).length) u.root
        (NodeTree.preorders (u :: ts)) r :=
      visits_preorders (u :: ts) (before ++ [t.root]) (by simpa using hlisted)
        (by simpa using hnodup) hall hr u ts rfl
    rw [NodeTree.preorders, List.length_append]
    exact (hhead.mono (by omega)).append (htail.mono (by omega))

end

end ParentPointers
