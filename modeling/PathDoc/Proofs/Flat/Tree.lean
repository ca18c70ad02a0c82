import Mathlib.Data.List.Nodup
import Mathlib.Data.List.Perm.Basic
import PathDoc.Flat.Unflatten

/-!
# Entering paths into a tree of tokens

A tree does not depend on the order in which entries of different paths are entered
(`enter_perm`). Entries whose paths begin with one token go into the child of that token
(`enter_map_cons`), so the tree of entries that are grouped by their first tokens is put together
from the trees of the groups (`enter_groups`). The children of a tree are kept in the order of their
tokens: `arrange` is the list that results from entering children one after the other, a permutation
of them (`arrange_perm`) and the children themselves if they came in order (`arrange_sorted`).
-/

set_option autoImplicit false

namespace PathDoc.TokenTree

/-! ## Changing children -/

/-- A change of a child changes the pair of its token, with a tree without entries for a new one. -/
theorem updateChild_eq (token : Token) (change : TokenTree → TokenTree)
    (children : List (Token × TokenTree)) :
    updateChild token change children =
      Pairs.update token (fun child => change (child.getD empty)) children := by
  induction children with
  | nil => rfl
  | cons head rest ih =>
      obtain ⟨other, child⟩ := head
      rw [updateChild, Pairs.update]
      cases compare token other with
      | lt => rfl
      | eq => rfl
      | gt => exact congrArg _ ih

/-- Two changes of one child are one change. -/
theorem updateChild_updateChild (token : Token) (f g : TokenTree → TokenTree)
    (children : List (Token × TokenTree)) :
    updateChild token f (updateChild token g children) = updateChild token (f ∘ g) children := by
  induction children with
  | nil => simp [updateChild]
  | cons head rest ih =>
      obtain ⟨other, child⟩ := head
      cases h : compare token other with
      | lt => simp [updateChild, h]
      | eq => simp [updateChild, h]
      | gt => simp [updateChild, h, ih]

/-- Changes of different children commute. -/
theorem updateChild_comm {t u : Token} (hne : t ≠ u) (f g : TokenTree → TokenTree)
    (children : List (Token × TokenTree)) :
    updateChild t f (updateChild u g children) = updateChild u g (updateChild t f children) := by
  have hlt : ∀ {a b : Token}, compare a b = .lt → compare b a = .gt :=
    fun h => Std.OrientedCmp.gt_of_lt h
  have hgt : ∀ {a b : Token}, compare a b = .gt → compare b a = .lt :=
    fun h => Std.OrientedCmp.lt_of_gt h
  have hne' : compare t u ≠ .eq := fun h => hne (Std.LawfulEqCmp.eq_of_compare h)
  -- both tokens are compared with the first child; if both come before it, also with each other
  induction children with
  | nil =>
      cases h : compare t u with
      | lt => simp [updateChild, h, hlt h]
      | eq => exact absurd h hne'
      | gt => simp [updateChild, h, hgt h]
  | cons head rest ih =>
      obtain ⟨o, child⟩ := head
      cases ht : compare t o with
      | lt =>
          cases hu : compare u o with
          | lt =>
              cases h : compare t u with
              | lt => simp [updateChild, ht, hu, h, hlt h]
              | eq => exact absurd h hne'
              | gt => simp [updateChild, ht, hu, h, hgt h]
          | eq =>
              have ho : u = o := Std.LawfulEqCmp.eq_of_compare hu
              subst ho
              simp [updateChild, ht, hlt ht]
          | gt =>
              have htu : compare t u = .lt := Std.TransCmp.lt_trans ht (hgt hu)
              simp [updateChild, ht, hu, hlt htu]
      | eq =>
          have ho : t = o := Std.LawfulEqCmp.eq_of_compare ht
          subst ho
          cases hu : compare u t with
          | lt => simp [updateChild, hu, hlt hu]
          | eq => exact absurd (Std.LawfulEqCmp.eq_of_compare hu).symm hne
          | gt => simp [updateChild, hu]
      | gt =>
          cases hu : compare u o with
          | lt =>
              have hut : compare u t = .lt := Std.TransCmp.lt_trans hu (hgt ht)
              simp [updateChild, ht, hu, hlt hut]
          | eq => simp [updateChild, ht, hu]
          | gt => simp [updateChild, ht, hu, ih]

/-- A child that was not there is added. -/
theorem updateChild_perm {token : Token} (change : TokenTree → TokenTree)
    {children : List (Token × TokenTree)} (h : token ∉ children.map Prod.fst) :
    (updateChild token change children).Perm ((token, change empty) :: children) := by
  rw [updateChild_eq]
  exact Pairs.update_perm _ h

/-- A child that comes after all others is added at the end. -/
theorem updateChild_append {token : Token} (change : TokenTree → TokenTree)
    {children : List (Token × TokenTree)} (h : ∀ c ∈ children, compare c.1 token = .lt) :
    updateChild token change children = children ++ [(token, change empty)] := by
  induction children with
  | nil => rfl
  | cons head rest ih =>
      obtain ⟨other, child⟩ := head
      rw [List.forall_mem_cons] at h
      have hgt : compare token other = .gt := Std.OrientedCmp.gt_of_lt h.1
      simp [updateChild, hgt, ih h.2]

/-! ## Entering entries -/

/-- Enters entries at their paths, one after the other. -/
def enter (entries : List (Path × Entry)) (tree : TokenTree) : TokenTree :=
  entries.foldl (fun tree entry => tree.insert entry.2 entry.1) tree

/-- **Entries of different paths can be entered in either order.** -/
theorem insert_comm {p q : Path} (hne : p ≠ q) (a b : Entry) (tree : TokenTree) :
    (tree.insert a p).insert b q = (tree.insert b q).insert a p := by
  induction p generalizing q tree with
  | nil =>
      cases q with
      | nil => exact absurd rfl hne
      | cons u q =>
          obtain ⟨own, children⟩ := tree
          rfl
  | cons t p ih =>
      obtain ⟨own, children⟩ := tree
      cases q with
      | nil => rfl
      | cons u q =>
          simp only [insert]
          -- in one child by induction, in two children because the changes commute
          by_cases htu : t = u
          · subst htu
            have hpq : p ≠ q := fun h => hne (h ▸ rfl)
            rw [updateChild_updateChild, updateChild_updateChild]
            congr 2
            funext child
            exact ih hpq child
          · rw [updateChild_comm (Ne.symm htu)]

/-- **The tree of entries of different paths does not depend on their order.** -/
theorem enter_perm {as bs : List (Path × Entry)} (h : as.Perm bs)
    (hn : (as.map Prod.fst).Nodup) (tree : TokenTree) : enter as tree = enter bs tree := by
  refine List.Perm.foldl_eq' h (fun a ha b hb tree => ?_) tree
  by_cases hab : a = b
  · rw [hab]
  · have hne : a.1 ≠ b.1 := fun h => hab (List.inj_on_of_nodup_map hn ha hb h)
    exact insert_comm hne a.2 b.2 tree

theorem enter_append (as bs : List (Path × Entry)) (tree : TokenTree) :
    enter (as ++ bs) tree = enter bs (enter as tree) :=
  List.foldl_append

/-- **Entries below one token go into its child.** -/
theorem enter_map_cons (token : Token) {entries : List (Path × Entry)} (hne : entries ≠ [])
    (own : Option Entry) (children : List (Token × TokenTree)) :
    enter (entries.map fun e => (token :: e.1, e.2)) (node own children) =
      node own (updateChild token (enter entries) children) := by
  induction entries generalizing children with
  | nil => exact absurd rfl hne
  | cons e rest ih =>
      -- later entries find the child that the first one made, and the changes add up
      cases rest with
      | nil => rfl
      | cons e' rest =>
          have h := ih (List.cons_ne_nil _ _) (updateChild token (insert e.2 e.1) children)
          rw [updateChild_updateChild] at h
          exact h

/-! ## Putting children in order -/

/-- A change of a child that is not there is made to the tree without entries. -/
theorem updateChild_of_notMem {token : Token} (change : TokenTree → TokenTree)
    {children : List (Token × TokenTree)} (h : token ∉ children.map Prod.fst) :
    updateChild token change children = updateChild token (fun _ => change empty) children := by
  induction children with
  | nil => rfl
  | cons head rest ih =>
      obtain ⟨other, child⟩ := head
      rw [List.map_cons, List.mem_cons, not_or] at h
      rw [updateChild, updateChild, ih h.2]
      split
      · rfl
      · rename_i heq
        exact absurd (Std.LawfulEqCmp.eq_of_compare heq) h.1
      · rfl

/-- Adds children to children that are there, one after the other. -/
def addAll (added children : List (Token × TokenTree)) : List (Token × TokenTree) :=
  added.foldl (fun children child => updateChild child.1 (fun _ => child.2) children) children

/-- Children in the order of their tokens. -/
def arrange (children : List (Token × TokenTree)) : List (Token × TokenTree) :=
  addAll children []

/-- The tokens of added children are new and distinct. -/
def Fresh (added children : List (Token × TokenTree)) : Prop :=
  (added.map Prod.fst).Nodup ∧ ∀ token ∈ added.map Prod.fst, token ∉ children.map Prod.fst

/-- What is new besides the first child is new after it was added. -/
theorem Fresh.tail {child : Token × TokenTree} {added children : List (Token × TokenTree)}
    (h : Fresh (child :: added) children) :
    child.1 ∉ children.map Prod.fst ∧
      Fresh added (updateChild child.1 (fun _ => child.2) children) := by
  obtain ⟨hn, hc⟩ := h
  rw [List.map_cons] at hn hc
  obtain ⟨hnot, hn⟩ := List.nodup_cons.1 hn
  have hfirst := hc _ List.mem_cons_self
  refine ⟨hfirst, hn, fun token ht => ?_⟩
  rw [((updateChild_perm (fun _ => child.2) hfirst).map Prod.fst).mem_iff, List.map_cons,
    List.mem_cons, not_or]
  exact ⟨fun he => hnot (he ▸ ht), hc token (List.mem_cons_of_mem _ ht)⟩

/-- Nothing is lost and nothing repeated when children are added. -/
theorem addAll_perm {added children : List (Token × TokenTree)} (h : Fresh added children) :
    (addAll added children).Perm (added ++ children) := by
  induction added generalizing children with
  | nil => exact List.Perm.refl _
  | cons child rest ih =>
      obtain ⟨hfirst, hrest⟩ := h.tail
      refine (ih hrest).trans ?_
      refine ((updateChild_perm (fun _ => child.2) hfirst).append_left rest).trans ?_
      exact List.perm_middle

/-- **Arranging children permutes them.** -/
theorem arrange_perm {children : List (Token × TokenTree)}
    (h : (children.map Prod.fst).Nodup) : (arrange children).Perm children := by
  have hp : (addAll children []).Perm (children ++ []) :=
    addAll_perm ⟨h, fun _ _ => List.not_mem_nil⟩
  rwa [List.append_nil] at hp

/-- Children that come in order after others are added behind them. -/
theorem addAll_sorted {added children : List (Token × TokenTree)}
    (h : (children ++ added).Pairwise fun a b => compare a.1 b.1 = .lt) :
    addAll added children = children ++ added := by
  induction added generalizing children with
  | nil => exact (List.append_nil _).symm
  | cons child rest ih =>
      have hlt : ∀ c ∈ children, compare c.1 child.1 = .lt :=
        fun c hc => (List.pairwise_append.1 h).2.2 c hc child List.mem_cons_self
      have hsplit : children ++ child :: rest = (children ++ [child]) ++ rest := by simp
      rw [hsplit] at h ⊢
      rw [← ih h]
      unfold addAll
      rw [List.foldl_cons, updateChild_append (fun _ => child.2) hlt]

/-- **Children that come in order stay as they are.** -/
theorem arrange_sorted {children : List (Token × TokenTree)}
    (h : children.Pairwise fun a b => compare a.1 b.1 = .lt) : arrange children = children :=
  addAll_sorted h

/-- Entries that come in groups, each with its first token. -/
def ungroup (groups : List (Token × List (Path × Entry))) : List (Path × Entry) :=
  groups.flatMap fun g => g.2.map fun e => (g.1 :: e.1, e.2)

/-- The trees of groups of entries. -/
def trees (groups : List (Token × List (Path × Entry))) : List (Token × TokenTree) :=
  groups.map fun g => (g.1, enter g.2 empty)

theorem enter_ungroup {groups : List (Token × List (Path × Entry))}
    (hne : ∀ g ∈ groups, g.2 ≠ []) (own : Option Entry) {children : List (Token × TokenTree)}
    (h : Fresh (trees groups) children) :
    enter (ungroup groups) (node own children) = node own (addAll (trees groups) children) := by
  induction groups generalizing children with
  | nil => rfl
  | cons g rest ih =>
      rw [List.forall_mem_cons] at hne
      -- a group makes one new child, and the other groups stay new after it
      obtain ⟨hfirst, hrest⟩ := Fresh.tail h
      have hsplit : ungroup (g :: rest) = g.2.map (fun e => (g.1 :: e.1, e.2)) ++ ungroup rest := by
        rw [ungroup, List.flatMap_cons]
        rfl
      rw [hsplit, enter_append, enter_map_cons g.1 hne.1, updateChild_of_notMem _ hfirst,
        ih hne.2 hrest]
      rfl

/-- **The tree of entries in groups has the trees of the groups as its children, in order.** -/
theorem enter_groups {groups : List (Token × List (Path × Entry))} (hne : ∀ g ∈ groups, g.2 ≠ [])
    (hn : (groups.map Prod.fst).Nodup) (own : Option Entry) :
    enter (ungroup groups) (node own []) = node own (arrange (trees groups)) := by
  refine enter_ungroup hne own ⟨?_, fun _ _ => List.not_mem_nil⟩
  rw [trees, List.map_map]
  exact hn

end PathDoc.TokenTree
