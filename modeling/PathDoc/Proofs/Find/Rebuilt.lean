import PathDoc.Proofs.Find.Renewed
import PathDoc.Proofs.Flat.Acceptance

/-!
# Rebuilt documents hold no equal members

A set without equal members can get some when its members are rebuilt: a replacement deep inside one
member may make it equal to another one. Every set above a replacement is therefore made anew from
its members, and so is every set that is unflattened. If no set in a document and in the
replacements holds two equal members, none in the renewed document does (`membersDistinct_renewed`);
the same goes for the values of a dictionary and the document that they make
(`membersDistinct_unflatten`).
-/

set_option autoImplicit false

namespace PathDoc

namespace Document

theorem parts_mapChildren (f : Document → Document) (node : Document) :
    (node.mapChildren f).parts = node.parts.map f := by
  rw [parts, parts, children_mapChildren, List.map_map, List.map_map]
  rfl

/-- Only a set can hold equal members. -/
theorem hasDistinctMembers_of_kind {node : Document} (h : node.kind ≠ .set) :
    node.hasDistinctMembers = true := by
  cases node with
  | set members => exact absurd rfl h
  | _ => rfl

theorem kind_mapChildren (f : Document → Document) (node : Document) :
    (node.mapChildren f).kind = node.kind :=
  kind_of_outline (outline_mapChildren f node)

/-- A set made of members without equal members below them has none anywhere. -/
theorem membersDistinct_ofMembers {members : List Document}
    (h : ∀ member ∈ members, member.membersDistinct = true) :
    (ofMembers members).membersDistinct = true := by
  refine (everywhere_set _).2 ⟨hasDistinctMembers_ofMembers members, ?_⟩
  intro member hm
  exact h member (mem_of_mem_distinct hm)

end Document

/-! ## Replacements -/

namespace Traversal

variable {traversal : Traversal} {predicate : Document → Bool}

/-- **A renewed document holds no equal members, if neither it nor what replaces its matches does.**
-/
theorem membersDistinct_renewed {f : Document → Document}
    (hf : ∀ node, predicate node = true → node.membersDistinct = true →
      (f node).membersDistinct = true)
    {depth : Nat} {node : Document} (hm : node.membersDistinct = true) :
    (traversal.renewed predicate f depth node).membersDistinct = true := by
  induction node using Document.induct_parts generalizing depth with
  | step node ih =>
    have hparts : ∀ part ∈ node.parts,
        (traversal.renewed predicate f (depth + 1) part).membersDistinct = true := by
      intro part hp
      exact ih part hp ((Document.everywhere_iff.1 hm).2 part hp)
    cases hp : predicate node with
    | true =>
        rw [renewed_of_match hp]
        exact hf node hp hm
    | false =>
        cases hx : traversal.expands node depth with
        | false =>
            rw [renewed_of_not_expands hp hx]
            exact hm
        | true =>
            by_cases hs : node.kind = .set
            · cases node with
              | set members =>
                  -- members that were different may have become equal, so the set is made anew
                  rw [renewed_set hp hx]
                  split
                  · exact hm
                  · apply Document.membersDistinct_ofMembers
                    rw [List.forall_mem_map]
                    rw [Document.parts_set] at hparts
                    exact hparts
              | _ => cases hs
            · rw [renewed_of_expands hp hx hs]
              refine Document.everywhere_iff.2 ⟨?_, ?_⟩
              · apply Document.hasDistinctMembers_of_kind
                rw [Document.kind_mapChildren]
                exact hs
              · rw [Document.parts_mapChildren, List.forall_mem_map]
                exact hparts

/-- **Replacing the topmost matches leaves no equal members.** -/
theorem membersDistinct_replaceAll {replace : Document → Outcome Document}
    (hr : ∀ node new, predicate node = true → replace node = .ok new →
      new.membersDistinct = true)
    {checkFirst : Bool} {document result : Document} (hm : document.membersDistinct = true)
    (h : traversal.replaceAll predicate replace checkFirst document = .ok result) :
    result.membersDistinct = true := by
  rw [replaceAll_eq_unlessFailing, unlessFailing_eq_ok_iff] at h
  rw [h.2]
  apply membersDistinct_renewed _ hm
  intro node hp hnode
  -- a node whose replacement fails counts as its own replacement
  unfold outcomeOr
  cases hreplace : replace node with
  | error error => exact hnode
  | ok new => exact hr node new hp hreplace

end Traversal

/-! ## Unflattening -/

theorem TokenTree.hasDistinctMembers_assemble {path : Path} {values : List (Token × Document)}
    {marker : Marker} {document : Document} (h : assemble path values marker = .ok document) :
    document.hasDistinctMembers = true := by
  rcases assemble_cases h with ⟨rfl, rfl⟩ | ⟨items, rfl, ⟨rfl, rfl⟩ | ⟨rfl, rfl⟩ |
      ⟨name, fields, rfl, hlength, rfl⟩⟩
  · rfl
  · rfl
  · exact Document.hasDistinctMembers_ofMembers items
  · rfl

/-- **Unflattening leaves no equal members.** -/
theorem PathDict.membersDistinct_unflatten {dict : PathDict} {document : Document}
    (hv : ∀ path value, (path, Entry.value value) ∈ dict.entries → value.membersDistinct = true)
    (h : dict.unflatten = .ok document) : document.membersDistinct = true := by
  rcases unflatten_cases h with ⟨-, rfl⟩ | hbuild
  · rfl
  · refine TokenTree.everywhere_of_build TokenTree.hasDistinctMembers_assemble
      (TokenTree.isSorted_ofDict dict) ?_ hbuild
    intro path value he
    rw [TokenTree.entryAt?_ofDict, get?_eq_some_iff] at he
    exact hv path value he

/-- **Rebuilding keeps sets free of equal members.** If no set at any depth of a document holds two
equal members, nor any in what a function makes of the matches, then none at any depth of the
document with the matches replaced does, whatever the order and the limits of the search. If no set
in the values of a dictionary holds two equal members, then none in the document that it is
unflattened to does. -/
theorem membersDistinct_rebuilt :
    (∀ (traversal : Traversal) (predicate : Document → Bool)
        (replace : Document → Outcome Document) (checkFirst : Bool) (document result : Document),
      document.membersDistinct = true →
      (∀ node new, predicate node = true → replace node = .ok new →
        new.membersDistinct = true) →
      traversal.replaceAll predicate replace checkFirst document = .ok result →
      result.membersDistinct = true) ∧
    ∀ (dict : PathDict) (document : Document),
      (∀ path value, (path, Entry.value value) ∈ dict.entries → value.membersDistinct = true) →
      dict.unflatten = .ok document → document.membersDistinct = true := by
  constructor
  · intro traversal predicate replace checkFirst document result hm hr h
    exact Traversal.membersDistinct_replaceAll hr hm h
  · intro dict document hv h
    exact PathDict.membersDistinct_unflatten hv h

/-- Replacing all numbers by one makes the members of a set equal, and then those of the set around
it; a dictionary with one set twice makes a set that holds it once. -/
theorem membersDistinct_rebuilt_collapsed :
    let traversal : Traversal := ⟨.depthFirst, [], [], 10, 10⟩
    let document : Document := .set [.set [.int 1, .int 2], .set [.int 3]]
    let collapsed : Document := .set [.set [.int 0]]
    let dict : PathDict := .ofList [([], .marker .set), ([.index 0], .value (.set [.int 0])),
      ([.index 1], .value (.set [.int 0])), ([.index 2], .value (.int 7))]
    let unflattened : Document := .set [.set [.int 0], .int 7]
    document.membersDistinct = true ∧
      traversal.replaceAll (fun node => !node.isContainer) (fun _ => .ok (.int 0)) false document =
        .ok collapsed ∧
      collapsed.membersDistinct = true ∧
      (∀ path value, (path, Entry.value value) ∈ dict.entries → value.membersDistinct = true) ∧
      dict.unflatten = .ok unflattened ∧ unflattened.membersDistinct = true := by
  intro traversal document collapsed dict unflattened
  have hm : document.membersDistinct = true := by decide
  have hreplaced : traversal.replaceAll (fun node => !node.isContainer) (fun _ => .ok (.int 0))
      false document = .ok collapsed := rfl
  -- the two sets and the number are the only values
  have hvalues : ∀ path value, (path, Entry.value value) ∈ dict.entries →
      value.membersDistinct = true := by
    have hentries : dict.entries = [([], .marker .set), ([.index 0], .value (.set [.int 0])),
        ([.index 1], .value (.set [.int 0])), ([.index 2], .value (.int 7))] := rfl
    intro path value he
    simp only [hentries, List.mem_cons, Prod.mk.injEq, Entry.value.injEq, reduceCtorEq, and_false,
      List.not_mem_nil, or_false, false_or] at he
    rcases he with ⟨-, rfl⟩ | ⟨-, rfl⟩ | ⟨-, rfl⟩ <;> decide
  have hunflatten : dict.unflatten = .ok unflattened := rfl
  obtain ⟨hreplace, hunflat⟩ := membersDistinct_rebuilt
  refine ⟨hm, hreplaced, hreplace traversal _ _ false document collapsed hm ?_ hreplaced,
    hvalues, hunflatten, hunflat dict unflattened hvalues hunflatten⟩
  intro node new _ hnew
  cases hnew
  rfl

end PathDoc
