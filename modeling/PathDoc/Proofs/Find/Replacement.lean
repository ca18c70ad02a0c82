import PathDoc.Proofs.Document.Congruence
import PathDoc.Proofs.Traversal.Replaced
import PathDoc.Proofs.Write.Sequences

/-!
# Replacing in a batch and by rebuilding

A batch collects the matches of a document and writes at their paths, one after the other;
`Traversal.replaceAll` rebuilds the document from the leaves. Outside sets the two do the same: they
agree on a document exactly if they agree on each of its outermost sets, taken alone
(`agreesOn_iff_sets`).
-/

set_option autoImplicit false

namespace PathDoc

namespace Match.ValueMatcher

/-- What is stored in the place of a match if a value is to replace it. -/
def replacementValue (matcher : ValueMatcher) (value found : Document) : Document :=
  match value, found with
  | .scalar (.string replacementText), .scalar (.string text) =>
    match matcher.replace? text.toList replacementText.toList with
    | some replaced => .string (String.ofList replaced)
    | none => value
  | _, _ => value

theorem replacementFor_value (matcher : ValueMatcher) (value found : Document) :
    matcher.replacementFor (.value value) found = .value (matcher.replacementValue value found) := by
  unfold replacementFor replacementValue
  split
  · rename_i replacementText text h
    cases h
    dsimp only
    cases matcher.replace? text.toList replacementText.toList with
    | some replaced => rfl
    | none => rfl
  · rename_i hother
    split
    · exact (hother _ _ rfl rfl).elim
    · rfl

end Match.ValueMatcher

namespace Traversal

variable {traversal : Traversal} {predicate : Document → Bool} {f : Document → Document}

/-- The writes that replace the matches in a document, in the order in which they are found. -/
def replacements (traversal : Traversal) (predicate : Document → Bool) (f : Document → Document)
    (document : Document) : List (Path × Document) :=
  (traversal.findPaths predicate document).map fun found => (found.1, f found.2)

theorem replacements_of_match {node : Document} (h : predicate node = true) :
    traversal.replacements predicate f node = [([], f node)] := by
  rw [replacements, findPaths_of_match h]
  rfl

theorem replacements_of_not_expands {node : Document} (h : predicate node = false)
    (hx : traversal.expands node 0 = false) : traversal.replacements predicate f node = [] := by
  rw [replacements, findPaths_of_not_expands h hx]
  rfl

theorem under_map (token : Token) (visits : List (Path × Document)) :
    under token (visits.map fun found => (found.1, f found.2)) =
      (under token visits).map fun found => (found.1, f found.2) := by
  rw [under, under, List.filter_map, List.map_map, List.map_map]
  rfl

/-- **The writes below a child are those of the child alone.** -/
theorem under_replacements {node child : Document} {token : Token} (hd : node.namesDistinct = true)
    (h : predicate node = false) (hx : traversal.expands node 0 = true)
    (hc : (token, child) ∈ node.children) :
    under token (traversal.replacements predicate f node) =
      (traversal.lowered 1).replacements predicate f child := by
  rw [replacements, replacements, ← under_findPaths hd h hx hc, under_map]

theorem belowChildren_replacements {node : Document} (hd : node.namesDistinct = true)
    (h : predicate node = false) :
    Navigator.BelowChildren node (traversal.replacements predicate f node) := by
  intro write hw
  obtain ⟨found, hf, rfl⟩ := List.mem_map.1 hw
  obtain ⟨child, hc, rest, hpath⟩ := exists_child_of_mem_findPaths h hf
  exact ⟨child.1, child.2, rest,
    Document.child?_of_mem_children (Document.children_tokens_nodup hd) hc, hpath⟩

/-- **A write at a child replaces a match.** -/
theorem child_of_replacement {node value : Document} {token : Token}
    (hd : node.namesDistinct = true) (h : predicate node = false)
    (hx : traversal.expands node 0 = true)
    (hm : ([token], value) ∈ traversal.replacements predicate f node) :
    ∃ child, node.child? token = some child ∧ predicate child = true ∧ value = f child := by
  obtain ⟨first, child, rest, hc, hpath⟩ := belowChildren_replacements hd h _ hm
  cases hpath
  have hmem := Document.mem_children_of_child? hc
  have hroot : ([], value) ∈ (traversal.lowered 1).replacements predicate f child := by
    rw [← under_replacements hd h hx hmem]
    refine List.mem_map.2 ⟨([token], value), List.mem_filter.2 ⟨hm, ?_⟩, rfl⟩
    exact beq_self_eq_true _
  cases hp : predicate child with
  | true =>
      rw [replacements_of_match hp, List.mem_singleton] at hroot
      cases hroot
      exact ⟨child, hc, hp, rfl⟩
  | false =>
      -- below a child that is no match every write has a longer path
      have hd' : child.namesDistinct = true := Document.everywhere_of_mem_children hd hmem
      obtain ⟨_, _, _, -, hne⟩ := belowChildren_replacements hd' hp _ hroot
      cases hne

/-- Whether a walk comes from a document to a node, and with what depth left, passing only nodes of
some sort and no match. -/
inductive Reaches (predicate : Document → Bool) (through : Document → Prop) :
    Traversal → Document → Traversal → Document → Prop where
  | here (traversal : Traversal) (node : Document) :
      Reaches predicate through traversal node traversal node
  | child {traversal left : Traversal} {node child target : Document} {token : Token} :
      predicate node = false → traversal.expands node 0 = true → through node →
      node.child? token = some child →
      Reaches predicate through (traversal.lowered 1) child left target →
      Reaches predicate through traversal node left target

end Traversal

namespace Navigator

open Document (Congruence ChildrenRelated)
open Traversal (Reaches)

variable {navigator : Navigator} {skipMissing : Bool} {predicate : Document → Bool}
  {f : Document → Document} {R : Document → Document → Prop} {traversal : Traversal}

/-- Whether writing at the matches of a document and rebuilding it come to related results. -/
def AgreesOn (navigator : Navigator) (skipMissing : Bool) (predicate : Document → Bool)
    (f : Document → Document) (R : Document → Document → Prop) (traversal : Traversal)
    (document : Document) : Prop :=
  ∃ result, navigator.writeAll skipMissing document (traversal.replacements predicate f document) =
      some result ∧ R result (traversal.replaced predicate f 0 document)

theorem agreesOn_of_match {node : Document} (h : predicate node = true) (hr : R (f node) (f node)) :
    navigator.AgreesOn skipMissing predicate f R traversal node := by
  refine ⟨f node, ?_, ?_⟩
  · rw [Traversal.replacements_of_match h, writeAll_cons, attempt_root]
    rfl
  · rw [Traversal.replaced_of_match h]
    exact hr

theorem agreesOn_of_not_expands {node : Document} (h : predicate node = false)
    (hx : traversal.expands node 0 = false) (hr : R node node) :
    navigator.AgreesOn skipMissing predicate f R traversal node := by
  refine ⟨node, ?_, ?_⟩
  · rw [Traversal.replacements_of_not_expands h hx, writeAll_nil]
  · rw [Traversal.replaced_of_not_expands h hx]
    exact hr

/-- Without a match neither way changes anything. -/
theorem agreesOn_of_no_match {node : Document} (hd : node.namesDistinct = true)
    (h : traversal.findPaths predicate node = []) (hr : R node node) :
    navigator.AgreesOn skipMissing predicate f R traversal node := by
  refine ⟨node, ?_, ?_⟩
  · rw [Traversal.replacements, h]
    rfl
  · rw [Traversal.replaced_of_no_match hd h]
    exact hr

/-- **On a container whose writes merge nothing and that is rebuilt child by child, the two agree
exactly if they agree on the children.** -/
theorem agreesOn_iff_children {node : Document} (hd : node.namesDistinct = true)
    (h : predicate node = false) (hx : traversal.expands node 0 = true)
    (hm : navigator.Unmerged skipMissing node (traversal.replacements predicate f node))
    (hrebuilt : traversal.replaced predicate f 0 node =
      node.mapChildren (traversal.replaced predicate f 1))
    (hr : ∀ {a b : Document}, a.outline = node.outline → b.outline = node.outline →
      (R a b ↔ ChildrenRelated R a b)) :
    navigator.AgreesOn skipMissing predicate f R traversal node ↔
      ∀ token child, node.child? token = some child →
        navigator.AgreesOn skipMissing predicate f R (traversal.lowered 1) child := by
  have hb : BelowChildren node (traversal.replacements predicate f node) :=
    Traversal.belowChildren_replacements hd h
  have hunder : ∀ {token child}, node.child? token = some child →
      Traversal.under token (traversal.replacements predicate f node) =
        (traversal.lowered 1).replacements predicate f child :=
    fun hc => Traversal.under_replacements hd h hx (Document.mem_children_of_child? hc)
  have houtline := Document.outline_mapChildren (traversal.replaced predicate f 1) node
  constructor
  -- the result has the children of the node, each with its own writes carried out
  · rintro ⟨result, hw, hrel⟩ token child hc
    have hwritten := writeAll_children hb hm hw
    rw [hrebuilt, hr hwritten.outline houtline] at hrel
    have htoken : token ∈ result.tokens := by
      have ho : result.tokens = node.tokens := congrArg Prod.snd hwritten.outline
      rw [ho, ← Document.exists_child?_iff]
      exact ⟨child, hc⟩
    obtain ⟨child', hc'⟩ := Document.exists_child?_iff.2 htoken
    refine ⟨child', ?_, ?_⟩
    · rw [← hunder hc, hwritten.children token child hc, hc']
    · rw [Traversal.replaced_lowered]
      refine hrel token child' _ hc' ?_
      rw [Document.child?_mapChildren, hc]
      rfl
  · intro hchildren
    obtain ⟨result, hw⟩ := exists_writeAll hb hm fun token child hc => by
      obtain ⟨child', hc', -⟩ := hchildren token child hc
      exact ⟨child', (hunder hc).symm ▸ hc'⟩
    have hwritten := writeAll_children hb hm hw
    refine ⟨result, hw, ?_⟩
    rw [hrebuilt, hr hwritten.outline houtline]
    intro token x y hx hy
    rw [Document.child?_mapChildren] at hy
    obtain ⟨child, hc, rfl⟩ := Option.map_eq_some_iff.1 hy
    obtain ⟨child', hc', hrel⟩ := hchildren token child hc
    rw [← hunder hc, hwritten.children token child hc, hx] at hc'
    cases hc'
    rwa [Traversal.replaced_lowered] at hrel

theorem namesDistinct_of_reaches {through : Document → Prop} {left : Traversal}
    {document node : Document} (hd : document.namesDistinct = true)
    (h : Reaches predicate through traversal document left node) : node.namesDistinct = true := by
  induction h with
  | here traversal node => exact hd
  | child _ _ _ hc _ ih =>
      exact ih (Document.everywhere_of_mem_children hd (Document.mem_children_of_child? hc))

/-- **The two ways agree exactly if they agree on the outermost sets.** -/
theorem agreesOn_iff_sets (hr : Congruence R) (hf : ∀ node : Document, node.namesDistinct = true →
      (f node).namesDistinct = true) {document : Document}
    (hd : document.namesDistinct = true) :
    navigator.AgreesOn skipMissing predicate f R traversal document ↔
      ∀ left node, Reaches predicate (·.kind ≠ .set) traversal document left node →
        node.kind = .set → navigator.AgreesOn skipMissing predicate f R left node := by
  induction hn : document.nodeCount using Nat.strongRecOn generalizing traversal document with
  | _ n ih =>
    subst hn
    by_cases hk : document.kind = .set
    · -- a set is its own outermost set, and nothing is reached through it
      constructor
      · rintro h left node (_ | ⟨-, -, hthrough, -, -⟩) -
        · exact h
        · exact absurd hk hthrough
      · intro h
        exact h traversal document (.here traversal document) hk
    cases h : predicate document with
    | true =>
        refine iff_of_true (agreesOn_of_match h (hr.refl (hf document hd))) ?_
        rintro left node (_ | ⟨hp, -, -, -, -⟩) hset
        · exact absurd hset hk
        · exact absurd (h.symm.trans hp) Bool.noConfusion
    | false =>
        cases hx : traversal.expands document 0 with
        | false =>
            refine iff_of_true (agreesOn_of_not_expands h hx (hr.refl hd)) ?_
            rintro left node (_ | ⟨-, hx', -, -, -⟩) hset
            · exact absurd hset hk
            · exact absurd (hx.symm.trans hx') Bool.noConfusion
        | true =>
            have hb : BelowChildren document (traversal.replacements predicate f document) :=
              Traversal.belowChildren_replacements hd h
            -- above a set the results are compared child by child
            have hrelated : ∀ {a b : Document}, a.outline = document.outline →
                b.outline = document.outline → (R a b ↔ ChildrenRelated R a b) := by
              intro a b ha hb
              have hkind := Document.kind_of_outline ha
              exact hr.children (ha.trans hb.symm) (Document.tokens_nodup_of_outline hd ha)
                (hkind ▸ Traversal.kind_ne_scalar_of_expands hx) (hkind ▸ hk)
            have hchild : ∀ {token child}, document.child? token = some child →
                (navigator.AgreesOn skipMissing predicate f R (traversal.lowered 1) child ↔
                  ∀ left node, Reaches predicate (·.kind ≠ .set) (traversal.lowered 1) child
                    left node → node.kind = .set →
                      navigator.AgreesOn skipMissing predicate f R left node) := by
              intro token child hc
              have hm := Document.mem_children_of_child? hc
              exact ih _ (Document.nodeCount_lt_of_mem_children hm)
                (Document.everywhere_of_mem_children hd hm) rfl
            rw [agreesOn_iff_children hd h hx (unmerged_of_kind hb hk)
              (Traversal.replaced_of_expands h hx hk) hrelated]
            constructor
            · rintro hchildren left node (_ | ⟨-, -, -, hc, hreach⟩) hset
              · exact absurd hset hk
              · exact (hchild hc).1 (hchildren _ _ hc) left node hreach hset
            · intro hsets token child hc
              exact (hchild hc).2 fun left node hreach hset =>
                hsets left node (.child h hx hk hc hreach) hset

end Navigator

end PathDoc
