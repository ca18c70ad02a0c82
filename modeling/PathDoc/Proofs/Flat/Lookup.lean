import PathDoc.Proofs.Document.Addresses
import PathDoc.Proofs.Flat.Tree

/-!
# Looking up paths in a tree of tokens

The children of a tree are kept in the order of their tokens (`isSorted_ofDict`). The tree of a
dictionary therefore holds at each path the entry that the dictionary has there
(`entryAt?_ofDict`), and it has a node at each path at or below which the dictionary has an entry
(`subtree?_ofDict`).
-/

set_option autoImplicit false

namespace PathDoc.TokenTree

/-- The entry of the path of a tree itself. -/
def own : TokenTree → Option Entry
  | node own _ => own

/-- The tree below a path. -/
def subtree? : TokenTree → Path → Option TokenTree
  | tree, [] => some tree
  | node _ children, token :: rest => (children.lookup token).bind fun child => child.subtree? rest

/-- The entry at a path. -/
def entryAt? (tree : TokenTree) (path : Path) : Option Entry :=
  (tree.subtree? path).bind own

/-- A tree whose children come in the order of their tokens, at every node. -/
inductive IsSorted : TokenTree → Prop
  | node {own : Option Entry} {children : List (Token × TokenTree)}
      (order : children.Pairwise fun a b => compare a.1 b.1 = .lt)
      (below : ∀ child ∈ children, IsSorted child.2) : IsSorted (node own children)

theorem isSorted_empty : IsSorted empty :=
  .node List.Pairwise.nil (fun _ h => nomatch h)

@[simp] theorem subtree?_nil (tree : TokenTree) : tree.subtree? [] = some tree := by
  cases tree
  rfl

@[simp] theorem subtree?_cons (own : Option Entry) (children : List (Token × TokenTree))
    (token : Token) (rest : Path) :
    (node own children).subtree? (token :: rest) =
      (children.lookup token).bind fun child => child.subtree? rest := rfl

theorem subtree?_cons_bind (tree : TokenTree) (token : Token) (rest : Path) :
    tree.subtree? (token :: rest) =
      (tree.subtree? [token]).bind fun child => child.subtree? rest := by
  obtain ⟨own, children⟩ := tree
  rw [subtree?_cons, subtree?_cons]
  simp

theorem subtree?_append (tree : TokenTree) (above : Path) (token : Token) :
    tree.subtree? (above ++ [token]) = (tree.subtree? above).bind fun t => t.subtree? [token] := by
  induction above generalizing tree with
  | nil => simp
  | cons first above ih =>
      obtain ⟨own, children⟩ := tree
      rw [List.cons_append, subtree?_cons, subtree?_cons, Option.bind_assoc]
      exact congrArg _ (funext fun child => ih child)

/-! ## Children of a token -/

/-- **Changing the child of a token changes what is found under that token only.** -/
theorem lookup_updateChild {children : List (Token × TokenTree)}
    (h : children.Pairwise fun a b => compare a.1 b.1 = .lt) (token other : Token)
    (change : TokenTree → TokenTree) :
    (updateChild token change children).lookup other =
      if other = token then some (change ((children.lookup token).getD empty))
      else children.lookup other := by
  rw [updateChild_eq]
  exact Pairs.lookup_update h token other _

/-- The children after a change of one of them. -/
theorem mem_updateChild {token : Token} {change : TokenTree → TokenTree}
    {children : List (Token × TokenTree)} {child : Token × TokenTree}
    (h : child ∈ updateChild token change children) :
    child ∈ children ∨ child = (token, change empty) ∨
      ∃ old, (token, old) ∈ children ∧ child = (token, change old) := by
  rw [updateChild_eq] at h
  exact Pairs.mem_update h

/-- A change of a child keeps the children in order. -/
theorem sorted_updateChild {children : List (Token × TokenTree)}
    (h : children.Pairwise fun a b => compare a.1 b.1 = .lt) (token : Token)
    (change : TokenTree → TokenTree) :
    (updateChild token change children).Pairwise fun a b => compare a.1 b.1 = .lt := by
  rw [updateChild_eq]
  exact Pairs.sorted_update h token _

/-! ## Entering an entry -/

/-- **Entering an entry keeps a tree sorted.** -/
theorem IsSorted.insert {tree : TokenTree} (h : tree.IsSorted) (entry : Entry) (path : Path) :
    (tree.insert entry path).IsSorted := by
  induction path generalizing tree with
  | nil =>
      obtain ⟨own, children⟩ := tree
      obtain ⟨horder, hbelow⟩ := h
      exact .node horder hbelow
  | cons token path ih =>
      obtain ⟨own, children⟩ := tree
      obtain ⟨horder, hbelow⟩ := h
      refine .node (sorted_updateChild horder token _) fun child hc => ?_
      rcases mem_updateChild hc with hc | rfl | ⟨old, ho, rfl⟩
      · exact hbelow child hc
      · exact ih isSorted_empty
      · exact ih (hbelow _ ho)

theorem entryAt?_empty (path : Path) : empty.entryAt? path = none := by
  cases path <;> rfl

/-- What stands below a child that may be missing. -/
theorem entryAt?_cons (own : Option Entry) (children : List (Token × TokenTree)) (token : Token)
    (path : Path) :
    (node own children).entryAt? (token :: path) =
      ((children.lookup token).getD empty).entryAt? path := by
  rw [entryAt?, subtree?_cons]
  cases children.lookup token with
  | none => exact (entryAt?_empty path).symm
  | some child => rfl

/-- The child that a change of a token's child starts from is sorted. -/
theorem IsSorted.getD {own : Option Entry} {children : List (Token × TokenTree)}
    (h : (TokenTree.node own children).IsSorted) (token : Token) :
    ((children.lookup token).getD empty).IsSorted := by
  obtain ⟨-, hbelow⟩ := h
  cases hl : children.lookup token with
  | none => exact isSorted_empty
  | some child => exact hbelow _ (mem_of_lookup hl)

/-- **Entering an entry changes the entry of one path only.** -/
theorem entryAt?_insert {tree : TokenTree} (h : tree.IsSorted) (entry : Entry) (path other : Path) :
    (tree.insert entry path).entryAt? other =
      if other = path then some entry else tree.entryAt? other := by
  induction path generalizing tree other with
  | nil =>
      obtain ⟨own, children⟩ := tree
      cases other with
      -- the own entry of a node is that of the path without tokens
      | nil => rfl
      | cons token other => rfl
  | cons token path ih =>
      obtain ⟨own, children⟩ := tree
      have hchild := h.getD token
      obtain ⟨horder, -⟩ := h
      cases other with
      | nil => rfl
      | cons first other =>
          rw [TokenTree.insert, entryAt?_cons, entryAt?_cons, lookup_updateChild horder]
          by_cases hf : first = token
          · -- below the same token by induction, below another one nothing changes
            subst hf
            rw [if_pos rfl, Option.getD_some, ih hchild]
            simp
          · rw [if_neg hf, if_neg (fun he => hf (List.cons.inj he).1)]

/-- **Entering an entry makes nodes on the way to its path and no others.** -/
theorem subtree?_insert {tree : TokenTree} (h : tree.IsSorted) (entry : Entry) (path other : Path) :
    ((tree.insert entry path).subtree? other).isSome = true ↔
      other <+: path ∨ (tree.subtree? other).isSome = true := by
  induction path generalizing tree other with
  | nil =>
      obtain ⟨own, children⟩ := tree
      cases other with
      | nil => simp
      | cons token other => simp [TokenTree.insert]
  | cons token path ih =>
      obtain ⟨own, children⟩ := tree
      have hchild := h.getD token
      obtain ⟨horder, -⟩ := h
      cases other with
      | nil => simp
      | cons first other =>
          rw [TokenTree.insert, subtree?_cons, subtree?_cons, lookup_updateChild horder,
            List.cons_prefix_cons]
          by_cases hf : first = token
          · subst hf
            rw [if_pos rfl, Option.bind_some, ih hchild, and_iff_right rfl]
            -- a child that was missing has no node but its root, which is on the way anyway
            cases children.lookup first with
            | some child => rfl
            | none =>
                cases other with
                | nil => simp
                | cons second other => simp [empty]
          · rw [if_neg hf]
            simp [hf]

/-! ## The tree of a dictionary -/

theorem IsSorted.enter {tree : TokenTree} (h : tree.IsSorted) (entries : List (Path × Entry)) :
    (enter entries tree).IsSorted := by
  induction entries generalizing tree with
  | nil => exact h
  | cons entry rest ih => exact ih (h.insert entry.2 entry.1)

theorem isSorted_ofDict (dict : PathDict) : (ofDict dict).IsSorted :=
  isSorted_empty.enter dict.entries

theorem entryAt?_enter {tree : TokenTree} (h : tree.IsSorted) {entries : List (Path × Entry)}
    (hn : (entries.map Prod.fst).Nodup) (path : Path) :
    (enter entries tree).entryAt? path = (entries.lookup path).or (tree.entryAt? path) := by
  induction entries generalizing tree with
  | nil => rfl
  | cons entry rest ih =>
      obtain ⟨other, value⟩ := entry
      rw [List.map_cons, List.nodup_cons] at hn
      change (TokenTree.enter rest (tree.insert value other)).entryAt? path = _
      rw [ih (h.insert value other) hn.2, entryAt?_insert h]
      by_cases hp : path = other
      · subst hp
        -- later entries are for other paths, so this one stays
        have hnone : rest.lookup path = none := by
          rw [List.lookup_eq_none_iff]
          intro e he
          rw [bne_iff_ne]
          rintro rfl
          exact hn.1 (List.mem_map.2 ⟨e, he, rfl⟩)
        simp [hnone]
      · simp [List.lookup_cons, hp, beq_eq_false_iff_ne.2 hp]

/-- **The tree of a dictionary holds the entries of the dictionary.** -/
theorem entryAt?_ofDict (dict : PathDict) (path : Path) :
    (ofDict dict).entryAt? path = dict.get? path := by
  have h := entryAt?_enter isSorted_empty (keys_nodup dict.sorted) path
  rwa [entryAt?_empty, Option.or_none] at h

theorem subtree?_enter {tree : TokenTree} (h : tree.IsSorted) (entries : List (Path × Entry))
    (path : Path) :
    ((enter entries tree).subtree? path).isSome = true ↔
      (∃ entry ∈ entries, path <+: entry.1) ∨ (tree.subtree? path).isSome = true := by
  induction entries generalizing tree with
  | nil => simp [enter]
  | cons entry rest ih =>
      change ((TokenTree.enter rest (tree.insert entry.2 entry.1)).subtree? path).isSome = true ↔ _
      rw [ih (h.insert entry.2 entry.1), subtree?_insert h, List.exists_mem_cons_iff, ← or_assoc,
        or_comm (a := ∃ e ∈ rest, path <+: e.1)]

/-- **The tree of a dictionary has a node at a path exactly if there is an entry at or below
it.** -/
theorem subtree?_ofDict (dict : PathDict) {path : Path} (hp : path ≠ []) :
    ((ofDict dict).subtree? path).isSome = true ↔ ∃ entry ∈ dict.entries, path <+: entry.1 := by
  have hempty : empty.subtree? path = none := by
    obtain ⟨token, rest, rfl⟩ := List.exists_cons_of_ne_nil hp
    rfl
  have h := subtree?_enter isSorted_empty dict.entries path
  rw [hempty] at h
  simpa [ofDict, enter] using h

end PathDoc.TokenTree

namespace PathDoc.PathDict

/-- An entry is found at a path if it stands there. -/
theorem get?_eq_some_iff {dict : PathDict} {path : Path} {entry : Entry} :
    dict.get? path = some entry ↔ (path, entry) ∈ dict.entries :=
  ⟨mem_of_lookup, lookup_of_mem (keys_nodup dict.sorted)⟩

end PathDoc.PathDict
