import PathDoc.Proofs.Find.PlainSets
import PathDoc.Proofs.Find.Sets

/-!
# The two ways to replace matches

`Navigator.replaceMatches` writes at the paths of the matches, one after the other;
`Traversal.replaceAll` rebuilds the document. Whether they agree is decided by the outermost sets
with a match in them: there a write may merge two members, which moves the positions of the later
matches. `replacesAlike_iff` says when this does no harm. Where it does, a match is left in place
and a member that is none is overwritten (`not_replacesAlike_merging_set`).
-/

set_option autoImplicit false

namespace PathDoc.Navigator

open Match
open Traversal (Reaches)

variable {navigator : Navigator} {matcher : ValueMatcher} {value : Document}
  {options : SearchOptions} {checkFirst : Bool}

/-- A search that replaces matches carries out their writes. -/
theorem replaceMatches_toOption (document : Document) :
    (navigator.replaceMatches document matcher (.value value) options).toOption =
      navigator.writeAll options.skipMissing document
        (options.traversal.replacements matcher.isMatch (matcher.replacementValue value)
          document) := by
  have hwrites : (Batch.writeEach options.skipMissing
      (fun batch found => batch.set found.1 (.value (matcher.replacementValue value found.2)))
      (Batch.start navigator document) (matcher.topmost document options)).toOption.map
        Batch.document =
      navigator.writeAll options.skipMissing document
        (options.traversal.replacements matcher.isMatch (matcher.replacementValue value)
          document) :=
    writeEach_document (fun found => matcher.replacementValue value found.2)
      (Batch.start navigator document) (matcher.topmost document options)
  -- only the working document of the batch counts
  rw [← hwrites, replaceMatches, Batch.replaceMatches]
  have hstart : (Batch.start navigator document).document = document := rfl
  simp only [ValueMatcher.replacementFor_value, hstart]
  cases Batch.writeEach options.skipMissing
      (fun batch (found : Path × Document) =>
        batch.set found.1 (.value (matcher.replacementValue value found.2)))
      (Batch.start navigator document) (matcher.topmost document options) with
  | ok batch => rfl
  | error failure => rfl

theorem replaceMatches_eq_ok_iff {document result : Document} :
    navigator.replaceMatches document matcher (.value value) options = .ok result ↔
      navigator.writeAll options.skipMissing document
        (options.traversal.replacements matcher.isMatch (matcher.replacementValue value)
          document) = some result := by
  rw [← replaceMatches_toOption]
  cases navigator.replaceMatches document matcher (.value value) options with
  | ok found => simp [Except.toOption]
  | error error => simp [Except.toOption]

/-- Whether writing at the matches of a document and rebuilding it both succeed and come to equal
documents, if each match is replaced by the same value. -/
def ReplacesAlike (navigator : Navigator) (matcher : ValueMatcher) (value : Document)
    (options : SearchOptions) (checkFirst : Bool) (document : Document) : Prop :=
  ∃ written rebuilt,
    navigator.replaceMatches document matcher (.value value) options = .ok written ∧
      options.traversal.replaceAll matcher.isMatch
        (fun found => .ok (matcher.replacementValue value found)) checkFirst document =
          .ok rebuilt ∧
      written.agrees rebuilt = true

theorem replacesAlike_iff_agreesOn {document : Document} (hd : document.namesDistinct = true) :
    navigator.ReplacesAlike matcher value options checkFirst document ↔
      navigator.AgreesOn options.skipMissing matcher.isMatch (matcher.replacementValue value)
        (fun a b => a.agrees b = true) options.traversal document := by
  rw [ReplacesAlike, Traversal.replaceAll_eq checkFirst hd]
  constructor
  · rintro ⟨written, _, hw, hr, hagrees⟩
    cases hr
    exact ⟨written, replaceMatches_eq_ok_iff.1 hw, hagrees⟩
  · rintro ⟨written, hw, hagrees⟩
    exact ⟨written, _, replaceMatches_eq_ok_iff.2 hw, rfl, hagrees⟩

theorem namesDistinct_replacementValue (hv : value.namesDistinct = true) (found : Document) :
    (matcher.replacementValue value found).namesDistinct = true := by
  unfold ValueMatcher.replacementValue
  split
  · split
    · rfl
    · exact hv
  · exact hv

/-- Whether a walk comes to a set that holds a match without being one, passing only nodes of some
sort and no match. -/
def ReachesSet (predicate : Document → Bool) (through : Document → Prop) (traversal : Traversal)
    (document : Document) (left : Traversal) (members : List Document) : Prop :=
  Reaches predicate through traversal document left (.set members) ∧
    predicate (.set members) = false ∧ left.contains predicate (.set members) = true

/-- Only sets that hold a match and are none matter among the outermost ones. -/
theorem replacesAlike_iff_sets {document : Document} (hd : document.namesDistinct = true)
    (hv : value.namesDistinct = true) :
    navigator.ReplacesAlike matcher value options checkFirst document ↔
      ∀ left members, ReachesSet matcher.isMatch (·.kind ≠ .set) options.traversal document left
          members →
        navigator.AgreesOn options.skipMissing matcher.isMatch (matcher.replacementValue value)
          (fun a b => a.agrees b = true) left (.set members) := by
  rw [replacesAlike_iff_agreesOn hd, agreesOn_iff_sets Document.congruence_agrees
    (fun found _ => namesDistinct_replacementValue hv found) hd]
  constructor
  · rintro h left members ⟨hreach, -, -⟩
    exact h left (.set members) hreach rfl
  · intro h left node hreach hk
    have hn : node.namesDistinct = true := namesDistinct_of_reaches hd hreach
    -- a set that is a match itself or holds none is no obstacle
    cases node with
    | set members =>
        cases hm : matcher.isMatch (.set members) with
        | true =>
            exact agreesOn_of_match hm
              (Document.agrees_self (namesDistinct_replacementValue hv _))
        | false =>
            by_cases hnone : left.findPaths matcher.isMatch (.set members) = []
            · exact agreesOn_of_no_match hn hnone (Document.agrees_self hn)
            · exact h left members ⟨hreach, hm, (Traversal.contains_iff _).2 hnone⟩
    | _ => cases hk

/-- **When writing at the matches and rebuilding come to the same.** They agree on a document
exactly if they agree on each of its outermost sets that holds a match. If matches in these sets are
members and not parts of members, and replacement leaves none behind, they agree exactly if the
members of each set, all but its last match, differ from each other after replacement. If in every
set with a match the replaced members stay apart, both come to one and the same document. -/
theorem replacesAlike_iff {document : Document} (hd : document.namesDistinct = true)
    (hv : value.namesDistinct = true) :
    (navigator.ReplacesAlike matcher value options checkFirst document ↔
      ∀ left members, ReachesSet matcher.isMatch (·.kind ≠ .set) options.traversal document left
          members →
        navigator.ReplacesAlike matcher value ⟨options.skipMissing, left⟩ checkFirst
          (.set members)) ∧
      ((∀ left members, ReachesSet matcher.isMatch (·.kind ≠ .set) options.traversal document left
          members → Plain matcher.isMatch (matcher.replacementValue value) left members) →
        (navigator.ReplacesAlike matcher value options checkFirst document ↔
          ∀ left members, ReachesSet matcher.isMatch (·.kind ≠ .set) options.traversal document left
              members →
            LeavesRoom matcher.isMatch (matcher.replacementValue value) left members)) ∧
      ((∀ left members, ReachesSet matcher.isMatch (fun _ => True) options.traversal document left
          members → Apart matcher.isMatch (matcher.replacementValue value) left members) →
        ∃ result,
          navigator.replaceMatches document matcher (.value value) options = .ok result ∧
            options.traversal.replaceAll matcher.isMatch
              (fun found => .ok (matcher.replacementValue value found)) checkFirst document =
                .ok result) := by
  refine ⟨?_, fun hplain => ?_, fun ha => ?_⟩
  · rw [replacesAlike_iff_sets hd hv]
    refine forall₂_congr fun left members => forall_congr' fun hset => ?_
    rw [replacesAlike_iff_agreesOn (namesDistinct_of_reaches hd hset.1)]
  · rw [replacesAlike_iff_sets hd hv]
    refine forall₂_congr fun left members => forall_congr' fun hset => ?_
    exact agreesOn_plain_iff (namesDistinct_of_reaches hd hset.1)
      (fun found _ => namesDistinct_replacementValue hv found) hset.2.1
      ((Traversal.contains_iff _).1 hset.2.2) (hplain left members hset)
  · have hsame : navigator.AgreesOn options.skipMissing matcher.isMatch
        (matcher.replacementValue value) (· = ·) options.traversal document :=
      agreesOn_of_apart hd fun left members hreach hm hfound =>
        ha left members ⟨hreach, hm, (Traversal.contains_iff _).2 hfound⟩
    obtain ⟨result, hw, rfl⟩ := hsame
    exact ⟨_, replaceMatches_eq_ok_iff.2 hw, Traversal.replaceAll_eq checkFirst hd⟩

/-- Two matches become one member: the write that merges is the last one. -/
theorem replacesAlike_merging_last :
    let matcher : ValueMatcher := ⟨[⟨false, .predicate fun node => node.int?.isSome⟩], false⟩
    let options : SearchOptions := ⟨false, ⟨.depthFirst, [], [], 100, 10⟩⟩
    standard.ReplacesAlike matcher (.string "y") options false
      (.set [.int 1, .int 2, .string "x"]) := by
  intro matcher options
  have h := @replacesAlike_iff standard matcher (.string "y") options false
    (.set [.int 1, .int 2, .string "x"]) (by decide) (by decide)
  -- the document is a set, so it is its only outermost one
  have hroot : ∀ left members, ReachesSet matcher.isMatch (·.kind ≠ .set) options.traversal
      (.set [.int 1, .int 2, .string "x"]) left members →
        left = options.traversal ∧ members = [.int 1, .int 2, .string "x"] := by
    rintro left members ⟨_ | ⟨-, -, hthrough, -, -⟩, -, -⟩
    · exact ⟨rfl, rfl⟩
    · exact absurd rfl hthrough
  refine (h.2.1 fun left members hset => ?_).2 fun left members hset => ?_
  · obtain ⟨rfl, rfl⟩ := hroot left members hset
    refine ⟨by decide, fun m hm hp => ?_, by decide⟩
    refine Traversal.findPaths_of_not_expands hp ?_
    simp only [List.mem_cons, List.not_mem_nil, or_false] at hm
    rcases hm with rfl | rfl | rfl <;> rfl
  · obtain ⟨rfl, rfl⟩ := hroot left members hset
    intro before last after hsplit hlast hafter
    match before with
    | [] =>
        cases hsplit
        exact absurd (hafter (.int 2) List.mem_cons_self) (by decide)
    | [_] =>
        cases hsplit
        decide
    | [_, _] =>
        cases hsplit
        exact absurd hlast (by decide)
    | _ :: _ :: _ :: _ => simp at hsplit

/-! ## Where they differ -/

theorem findPaths_integers :
    Traversal.findPaths ⟨.depthFirst, [], [], 100, 10⟩ (fun node => node.int?.isSome)
      (.set [.int 1, .int 2, .int 3, .string "x"]) =
      [([.index 0], .int 1), ([.index 1], .int 2), ([.index 2], .int 3)] := by
  simp [Traversal.findPaths, Traversal.walk, Traversal.walkFrom, Traversal.advance,
    Traversal.below, Traversal.expands, Document.children, Document.positions, Document.length?,
    Document.int?, Document.int, Document.string, Document.kind]

/-- **Three members of a set become one.** The second write merges two of them, so the third goes to
the position of a member that does not match, and one match stays. -/
theorem not_replacesAlike_merging_set :
    let matcher : ValueMatcher := ⟨[⟨false, .predicate fun node => node.int?.isSome⟩], false⟩
    let options : SearchOptions := ⟨false, ⟨.depthFirst, [], [], 100, 10⟩⟩
    let document : Document := .set [.int 1, .int 2, .int 3, .string "x"]
    standard.replaceMatches document matcher (.value (.string "y")) options =
        .ok (.set [.string "y", .int 3]) ∧
      ¬ standard.ReplacesAlike matcher (.string "y") options false document := by
  intro matcher options document
  -- the matcher is evaluated once, so the search is one by a plain predicate
  have hm : matcher.isMatch = fun node => node.int?.isSome := by
    funext node
    simp [matcher, ValueMatcher.isMatch, Requirement.meets, Check.passes]
  have hfound : options.traversal.findPaths matcher.isMatch document =
      [([.index 0], .int 1), ([.index 1], .int 2), ([.index 2], .int 3)] := by
    rw [hm]
    exact findPaths_integers
  have hw : standard.replaceMatches document matcher (.value (.string "y")) options =
      .ok (.set [.string "y", .int 3]) := by
    rw [replaceMatches_eq_ok_iff, Traversal.replacements, hfound]
    rfl
  refine ⟨hw, ?_⟩
  -- the rebuilt set holds the member that the writes have lost
  rintro ⟨written, rebuilt, hwritten, hrebuilt, hagrees⟩
  cases hw.symm.trans hwritten
  have hr : options.traversal.replaceAll matcher.isMatch
      (fun found => .ok (matcher.replacementValue (.string "y") found)) false document =
        .ok (.set [.string "y", .string "x"]) := rfl
  cases hr.symm.trans hrebuilt
  exact absurd hagrees (by decide)

end PathDoc.Navigator
