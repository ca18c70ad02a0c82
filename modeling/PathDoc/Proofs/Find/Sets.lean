import PathDoc.Proofs.Find.Replacement
import PathDoc.Proofs.Traversal.Orders

/-!
# Replacing members of sets

A batch writes to the members of a set by position. As long as no value that it stores equals
another member, before or after the replacement of that member, no write merges two members and no
position moves (`unmerged_of_apart`). Then a batch and a rebuild come to the same document
(`agreesOn_of_apart`).
-/

set_option autoImplicit false

namespace PathDoc

namespace Document

theorem hasOther_eq_false {members : List Document} {i : Nat} {value : Document}
    (h : ∀ j other, j ≠ i → members[j]? = some other → (other == value) = false) :
    hasOther members i value = false := by
  rw [hasOther, List.any_eq_false]
  intro other hm
  obtain ⟨j, hj, ho⟩ := List.mem_eraseIdx_iff_getElem?.1 hm
  rw [h j other hj ho]
  exact Bool.false_ne_true

theorem merges_eq_false {node : Document} {write : Path × Document}
    (h : ∀ members position, node = set members → write.1 = [.index position] →
      hasOther members position.toNat write.2 = false) : node.merges write = false := by
  unfold merges
  split
  · exact h _ _ rfl rfl
  · rfl

end Document

namespace Navigator

open Traversal (Reaches)

variable {navigator : Navigator} {skipMissing : Bool} {predicate : Document → Bool}
  {f : Document → Document} {traversal : Traversal}

/-- Whether the members of a set differ from each other after replacement, and the replaced matches
among them also from the other members before. -/
def Apart (predicate : Document → Bool) (f : Document → Document) (traversal : Traversal)
    (members : List Document) : Prop :=
  ∀ (i j : Nat) (a b : Document), i ≠ j → members[i]? = some a → members[j]? = some b →
    (traversal.replaced predicate f 1 b == traversal.replaced predicate f 1 a) = false ∧
      (predicate a = true → (b == traversal.replaced predicate f 1 a) = false)

/-- What the first writes to a set come to, if they merge nothing. -/
theorem written_before {members : List Document} (hd : (Document.set members).namesDistinct = true)
    (h : predicate (.set members) = false) {before after : List (Path × Document)}
    {state : Document} (hw : traversal.replacements predicate f (.set members) = before ++ after)
    (hm : navigator.Unmerged skipMissing (.set members) before)
    (hs : navigator.writeAll skipMissing (.set members) before = some state) :
    navigator.ChildrenWritten skipMissing (.set members) state before := by
  have hall : BelowChildren (.set members) (traversal.replacements predicate f (.set members)) :=
    Traversal.belowChildren_replacements hd h
  rw [hw] at hall
  exact writeAll_children (fun write hwrite => hall write (List.mem_append_left _ hwrite)) hm hs

/-- Before a member of a set is written, every other one is as it was or finished. -/
theorem child?_before {members : List Document} (hd : (Document.set members).namesDistinct = true)
    (h : predicate (.set members) = false) (hx : traversal.expands (.set members) 0 = true)
    (hchildren : ∀ token child, (Document.set members).child? token = some child →
      navigator.AgreesOn skipMissing predicate f (· = ·) (traversal.lowered 1) child)
    {before after : List (Path × Document)} {i j : Int} {value state child : Document}
    (hw : traversal.replacements predicate f (.set members) =
      before ++ ([.index i], value) :: after)
    (hs : navigator.ChildrenWritten skipMissing (.set members) state before) (hij : j ≠ i)
    (hc : (Document.set members).child? (.index j) = some child) :
    state.child? (.index j) = some child ∨
      state.child? (.index j) = some (traversal.replaced predicate f 1 child) := by
  rw [← hs.children (.index j) child hc]
  obtain ⟨found, rest, hfound, rfl, hrest⟩ := List.map_eq_append_iff.1 hw
  obtain ⟨⟨path, node⟩, tail, rfl, hfirst, rfl⟩ := List.map_eq_cons_iff.1 hrest
  cases hfirst
  -- none of the writes below the other member have been made, or all of them
  rcases Traversal.under_split hd h hx hfound hij with hnone | hnone
  · left
    rw [Traversal.under_map, hnone]
    rfl
  · right
    have hall : Traversal.under (.index j) (traversal.replacements predicate f (.set members)) =
        Traversal.under (.index j) (found.map fun found => (found.1, f found.2)) := by
      have hne : ¬ i = j := fun he => hij he.symm
      rw [hw, Traversal.under_append, under_cons, if_neg (by simp [hne]), Traversal.under_map,
        Traversal.under_map, hnone, List.map_nil, List.append_nil]
    rw [← hall, Traversal.under_replacements hd h hx (Document.mem_children_of_child? hc)]
    obtain ⟨result, hresult, rfl⟩ := hchildren (.index j) child hc
    rw [hresult, Traversal.replaced_lowered]

/-- **No write to a set whose members stay apart merges two members.** -/
theorem unmerged_of_apart {members : List Document}
    (hd : (Document.set members).namesDistinct = true)
    (h : predicate (.set members) = false) (hx : traversal.expands (.set members) 0 = true)
    (ha : Apart predicate f traversal members)
    (hchildren : ∀ token child, (Document.set members).child? token = some child →
      navigator.AgreesOn skipMissing predicate f (· = ·) (traversal.lowered 1) child) :
    navigator.Unmerged skipMissing (.set members)
      (traversal.replacements predicate f (.set members)) := by
  intro before write after hw state hs
  induction hn : before.length using Nat.strongRecOn generalizing before write after state with
  | _ n ih =>
    subst hn
    -- the writes before this one are shorter lists of the same kind, so they merge nothing
    have hmerged : navigator.Unmerged skipMissing (.set members) before := by
      rintro shorter other rest rfl earlier he
      refine ih shorter.length ?_ shorter other (rest ++ write :: after) ?_ earlier he rfl
      · rw [List.length_append, List.length_cons]
        omega
      · rw [hw, List.append_assoc, List.cons_append]
    apply Document.merges_eq_false
    intro members' position hstate hpath
    obtain ⟨path, value⟩ := write
    cases hpath
    have hmem : ([.index position], value) ∈ traversal.replacements predicate f (.set members) := by
      rw [hw]
      exact List.mem_append_right _ List.mem_cons_self
    obtain ⟨a, ha', hp, rfl⟩ := Traversal.child_of_replacement hd h hx hmem
    rw [Document.child?_set] at ha'
    obtain ⟨i, hi, hai⟩ := Option.bind_eq_some_iff.1 ha'
    cases Token.position?_eq_some_iff.1 hi
    have hwritten := written_before hd h hw hmerged hs
    rw [hstate] at hwritten
    apply Document.hasOther_eq_false
    intro j other hj ho
    have hlength : members'.length = members.length :=
      (Document.outline_set_iff _ _).1 hwritten.outline
    obtain ⟨hlt, -⟩ := List.getElem?_eq_some_iff.1 ho
    have hb : members[j]? = some members[j] := List.getElem?_eq_getElem (hlength ▸ hlt)
    have hapart := ha i j a _ hj.symm hai hb
    have hother : ∀ {items : List Document} {item : Document}, items[j]? = some item →
        (Document.set items).child? (.index j) = some item := by
      intro items item hi
      rw [Document.child?_set]
      exact hi
    have hfinal : traversal.replaced predicate f 1 a = f a := Traversal.replaced_of_match hp
    rw [hfinal] at hapart
    -- the other member is compared as it was or as it is in the end, and differs either way
    rcases child?_before hd h hx hchildren hw hwritten (by omega) (hother hb) with hc | hc
    · rw [hother ho] at hc
      cases hc
      exact hapart.2 hp
    · rw [hother ho] at hc
      cases hc
      exact hapart.1

/-- Members that stay apart are distinct after replacement. -/
theorem Apart.pairwise {members : List Document} (ha : Apart predicate f traversal members) :
    (members.map (traversal.replaced predicate f 1)).Pairwise fun a b => (a == b) = false := by
  rw [List.pairwise_map, List.pairwise_iff_getElem]
  intro i j hi hj hij
  exact (ha j i _ _ (by omega) (List.getElem?_eq_getElem hj) (List.getElem?_eq_getElem hi)).1

/-- **A batch and a rebuild come to the same document if the members of all sets stay apart.** -/
theorem agreesOn_of_apart {document : Document} (hd : document.namesDistinct = true)
    (ha : ∀ left members, Reaches predicate (fun _ => True) traversal document left
      (.set members) → predicate (.set members) = false →
        left.findPaths predicate (.set members) ≠ [] → Apart predicate f left members) :
    navigator.AgreesOn skipMissing predicate f (· = ·) traversal document := by
  induction hn : document.nodeCount using Nat.strongRecOn generalizing traversal document with
  | _ n ih =>
    subst hn
    cases h : predicate document with
    | true => exact agreesOn_of_match h rfl
    | false =>
        cases hx : traversal.expands document 0 with
        | false => exact agreesOn_of_not_expands h hx rfl
        | true =>
            have hchildren : ∀ token child, document.child? token = some child →
                navigator.AgreesOn skipMissing predicate f (· = ·) (traversal.lowered 1) child := by
              intro token child hc
              have hm := Document.mem_children_of_child? hc
              exact ih _ (Document.nodeCount_lt_of_mem_children hm)
                (Document.everywhere_of_mem_children hd hm)
                (fun left members hreach => ha left members (.child h hx trivial hc hreach)) rfl
            by_cases hfound : traversal.findPaths predicate document = []
            · exact agreesOn_of_no_match hd hfound rfl
            have hb : BelowChildren document (traversal.replacements predicate f document) :=
              Traversal.belowChildren_replacements hd h
            -- the two conditions under which a container is dealt with child by child
            have hsafe : navigator.Unmerged skipMissing document
                  (traversal.replacements predicate f document) ∧
                traversal.replaced predicate f 0 document =
                  document.mapChildren (traversal.replaced predicate f 1) := by
              by_cases hk : document.kind = .set
              · cases document with
                | set members =>
                    have hapart := ha traversal members (.here traversal (.set members)) h hfound
                    exact ⟨unmerged_of_apart hd h hx hapart hchildren,
                      Traversal.replaced_of_expands_set h hx hapart.pairwise⟩
                | _ => cases hk
              · exact ⟨unmerged_of_kind hb hk, Traversal.replaced_of_expands h hx hk⟩
            refine (agreesOn_iff_children hd h hx hsafe.1 hsafe.2 fun hx' hy' => ?_).2 hchildren
            have hkind := Document.kind_of_outline hx'
            exact Document.eq_iff_children (hx'.trans hy'.symm)
              (Document.tokens_nodup_of_outline hd hx')
              (hkind ▸ Traversal.kind_ne_scalar_of_expands hx)

end Navigator

end PathDoc
