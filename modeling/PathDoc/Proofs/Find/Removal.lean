import PathDoc.Proofs.Traversal.Visits
import PathDoc.Proofs.Write.Without

/-!
# Removing what is found

A search that removes its matches collects their paths first, sorts them and removes the nodes at
them one after the other, later paths first. A removal does not move nodes at smaller paths
(`remove_without`), so the run ends with the document without the nodes at those paths, unless one
of them is the root or a field of a record (`writeEach_remove`). `removeMatches_eq` says the same in
terms of the topmost matches, which do not depend on the order of the walk.
-/

set_option autoImplicit false

namespace PathDoc

namespace Document

/-- Why the node at a path cannot be removed, if it cannot: it is the root or a field of a
record. -/
def removalError? (document : Document) (path : Path) : Option Error :=
  match path.getLast? with
  | none => some (.typeMismatch "cannot remove the root document")
  | some last =>
    match document.nodeAt? path.dropLast with
    | some (.record _ _) => some ((Miss.mismatch "cannot remove a record field").toError path last)
    | _ => none

/-- Only the root and the fields of records cannot be removed. -/
theorem isSome_removalError?_iff {document : Document} {path : Path} :
    (document.removalError? path).isSome = true ↔
      path = [] ∨ ∃ above last name fields,
        path = above ++ [last] ∧ document.nodeAt? above = some (.record name fields) := by
  rcases List.eq_nil_or_concat path with rfl | ⟨above, last, rfl⟩
  · exact iff_of_true rfl (Or.inl rfl)
  · rw [List.concat_eq_append, removalError?, List.getLast?_concat, List.dropLast_concat]
    constructor
    · intro h
      dsimp only at h
      split at h
      · rename_i name fields hnode
        exact Or.inr ⟨above, last, name, fields, rfl, hnode⟩
      · cases h
    · rintro (h | ⟨above', last', name, fields, h, hnode⟩)
      · exact absurd h (List.append_ne_nil_of_right_ne_nil above (List.cons_ne_nil last []))
      · obtain ⟨rfl, -⟩ := List.append_inj' h rfl
        dsimp only
        rw [hnode]
        rfl

theorem isMissingPath_removalError? {document : Document} {path : Path} {error : Error}
    (h : document.removalError? path = some error) : error.isMissingPath = false := by
  unfold removalError? at h
  split at h
  · cases h
    rfl
  · split at h
    · cases h
      rfl
    · cases h

/-- The paths of a collection and one more. -/
def adding (path : Path) (gone : Path → Bool) (other : Path) : Bool :=
  other == path || gone other

theorem agreeElsewhere_adding (token : Token) (rest : Path) (gone : Path → Bool) :
    AgreeElsewhere token gone (adding (token :: rest) gone) := by
  intro other hne
  funext path
  have hpath : (other :: path == token :: rest) = false := by simp [hne]
  rw [beneath, adding, hpath]
  rfl

theorem beneath_adding (token : Token) (rest : Path) (gone : Path → Bool) :
    beneath (adding (token :: rest) gone) token = adding rest (beneath gone token) := by
  funext path
  simp [beneath, adding]

end Document

open Document

namespace Navigator

variable {navigator : Navigator}

/-- Nothing is left out at tokens up to the first token of a path if only greater paths are. -/
theorem gone_eq_false_of_lt {token other : Token} {rest : Path} {gone : Path → Bool}
    (hg : ∀ path, gone path = true → compare (token :: rest) path = .lt)
    (hle : compare other token ≠ .gt) : gone [other] = false := by
  rw [Bool.eq_false_iff]
  intro h
  have hlt := hg [other] h
  rw [List.compare_cons_cons, Ordering.then_eq_lt] at hlt
  rcases hlt with hlt | ⟨-, hlt⟩
  · exact hle (Std.OrientedCmp.gt_of_lt hlt)
  · cases rest <;> cases hlt

theorem compare_lt_of_beneath {token : Token} {rest : Path} {gone : Path → Bool}
    (hg : ∀ path, gone path = true → compare (token :: rest) path = .lt) {path : Path}
    (h : beneath gone token path = true) : compare rest path = .lt := by
  have hlt := hg (token :: path) h
  rw [List.compare_cons_cons, Std.ReflOrd.compare_self] at hlt
  exact hlt

/-- One more path leaves out the child at its first token or something in it; where that child
stands, nothing has moved. -/
theorem exists_hole_adding {node child : Document} {token : Token} {rest : Path}
    {gone : Path → Bool} (hd : node.namesDistinct = true) (hc : node.child? token = some child)
    (hg : ∀ path, gone path = true → compare (token :: rest) path = .lt) :
    ∃ plug, Hole token plug ∧
      node.without gone = plug (some (child.without (beneath gone token))) ∧
      node.without (adding (token :: rest) gone) =
        plug (if rest.isEmpty then none
          else some (child.without (adding rest (beneath gone token)))) := by
  have hk : ∀ other, compare other token = .lt → gone [other] = false :=
    fun other hlt => gone_eq_false_of_lt hg (hlt ▸ Ordering.noConfusion)
  have htoken : gone [token] = false :=
    gone_eq_false_of_lt hg (Std.ReflOrd.compare_self (a := token) ▸ Ordering.noConfusion)
  obtain ⟨plug, hole, hplug⟩ := exists_hole hd hc hk
  refine ⟨plug, hole, ?_, ?_⟩
  · rw [hplug gone (AgreeElsewhere.refl token gone), left?, htoken, if_neg Bool.false_ne_true]
  · rw [hplug _ (agreeElsewhere_adding token rest gone), left?, beneath_adding]
    have hadded : adding (token :: rest) gone [token] = rest.isEmpty := by
      simp [adding, htoken]
    rw [hadded]

/-- What is done below a child is put into its hole. -/
theorem descend_hole {full : Path} {act : Document → Outcome Written} {token : Token}
    {plug : Option Document → Document} (hole : Hole token plug) (value : Document) (rest : Path) :
    (navigator.descend full act (plug (some value)) (token :: rest)).map Written.document =
      ((navigator.descend full act value rest).map Written.document).map
        fun below => plug (some below) := by
  rw [descend, child_of_child? (hole.child _)]
  dsimp only
  cases navigator.descend full act value rest with
  | error error => rfl
  | ok written => exact congrArg Except.ok (hole.put _ _)

/-- A removal below a node, after the removal of nodes at greater paths. -/
theorem descend_remove_without (navigator : Navigator) (full : Path)
    {node parent child : Document} {above : Path} {last : Token} {gone : Path → Bool}
    (hd : node.namesDistinct = true) (hn : node.nodeAt? above = some parent)
    (hc : parent.child? last = some child)
    (hg : ∀ path, gone path = true → compare (above ++ [last]) path = .lt) :
    (navigator.descend full (fun node => navigator.applyLast full last node .remove)
        (node.without gone) above).map Written.document =
      if parent.kind = .record then
        .error ((Miss.mismatch "cannot remove a record field").toError full last)
      else .ok (node.without (adding (above ++ [last]) gone)) := by
  induction above generalizing node gone with
  | nil =>
      cases hn
      obtain ⟨plug, hole, hbefore, hafter⟩ := exists_hole_adding hd hc hg
      have hlocate : navigator.locate (plug (some (child.without (beneath gone last)))) last =
          .ok last.slot := (child_eq_ok_iff.1 (child_of_child? (hole.child _))).1
      have hkind := kind_without gone parent
      rw [hbefore] at hkind
      rw [descend, applyLast, hbefore, hlocate]
      dsimp only
      by_cases hr : parent.kind = .record
      · -- a record keeps its fields
        rw [hr] at hkind
        rw [if_pos hr]
        generalize plug _ = left at hkind
        cases left with
        | record name fields => rfl
        | _ => cases hkind
      · rw [if_neg hr, hole.take _ (hkind ▸ hr), List.nil_append, hafter, List.isEmpty_nil,
          if_pos rfl]
        rfl
  | cons token rest ih =>
      rw [List.cons_append] at hg ⊢
      rw [nodeAt?] at hn
      obtain ⟨inner, hinner, hn⟩ := Option.bind_eq_some_iff.1 hn
      obtain ⟨plug, hole, hbefore, hafter⟩ := exists_hole_adding hd hinner hg
      have hdi := Document.everywhere_of_mem_children hd (Document.mem_children_of_child? hinner)
      have hrest := ih hdi hn fun path h => compare_lt_of_beneath hg h
      have hne : (rest ++ [last]).isEmpty = false := by simp
      rw [hne, if_neg Bool.false_ne_true] at hafter
      rw [hbefore, descend_hole hole, hrest, hafter]
      split <;> rfl

/-- **A removal does what it would do first.** After the removal of nodes at greater paths the node
at a path stands where it stood, and its removal leaves the document without it too, unless it is
the root or a field of a record. -/
theorem remove_without (navigator : Navigator) {document : Document} {path : Path}
    {gone : Path → Bool}
    (hd : document.namesDistinct = true) (hn : (document.nodeAt? path).isSome = true)
    (hg : ∀ other, gone other = true → compare path other = .lt) :
    navigator.remove (document.without gone) path =
      match document.removalError? path with
      | some error => .error error
      | none => .ok (document.without (adding path gone)) := by
  rcases List.eq_nil_or_concat path with rfl | ⟨above, last, rfl⟩
  · rfl
  · rw [List.concat_eq_append] at hn hg ⊢
    -- the node stands in a container, and removing it is one step of a walk to that container
    obtain ⟨child, hchild⟩ := Option.isSome_iff_exists.1 hn
    rw [nodeAt?_append] at hchild
    obtain ⟨parent, hparent, hchild⟩ := Option.bind_eq_some_iff.1 hchild
    rw [nodeAt?] at hchild
    obtain ⟨child, hc, -⟩ := Option.bind_eq_some_iff.1 hchild
    have hstep := descend_remove_without navigator (above ++ [last]) hd hparent hc hg
    have hremove : navigator.remove (document.without gone) (above ++ [last]) =
        (navigator.descend (above ++ [last])
          (fun node => navigator.applyLast (above ++ [last]) last node .remove)
          (document.without gone) above).map Written.document := by
      rw [remove, Navigator.take, write, List.getLast?_concat, List.dropLast_concat]
      dsimp only
      cases navigator.descend _ _ _ _ <;> rfl
    rw [hremove, hstep, removalError?, List.getLast?_concat, List.dropLast_concat, hparent]
    cases parent <;> rfl

/-! ## A run of removals -/

theorem remove_eq_map (batch : Batch) (path : Path) :
    (batch.remove path).map (fun removed => removed.2.document) =
      batch.navigator.remove batch.document path := by
  rw [Batch.remove, remove, Navigator.take]
  cases batch.navigator.write batch.document path .remove <;> rfl

/-- One removal in a batch, after the removal of nodes at greater paths. -/
theorem batch_remove_cases {document : Document} {batch : Batch} {path : Path}
    {gone : Path → Bool} (hd : document.namesDistinct = true)
    (hb : batch.document = document.without gone)
    (hn : (document.nodeAt? path).isSome = true)
    (hg : ∀ other, gone other = true → compare path other = .lt) :
    (∃ error, document.removalError? path = some error ∧ batch.remove path = .error error) ∨
      document.removalError? path = none ∧ ∃ removed, batch.remove path = .ok removed ∧
        removed.2.document = document.without (adding path gone) := by
  have hstep := remove_without batch.navigator hd hn hg
  rw [← hb, ← remove_eq_map] at hstep
  -- the batch fails or goes on as the single removal does
  cases he : document.removalError? path with
  | some error =>
      rw [he] at hstep
      cases hw : batch.remove path with
      | ok removed =>
          rw [hw] at hstep
          cases hstep
      | error other =>
          rw [hw] at hstep
          cases hstep
          exact Or.inl ⟨error, rfl, rfl⟩
  | none =>
      rw [he] at hstep
      cases hw : batch.remove path with
      | error other =>
          rw [hw] at hstep
          cases hstep
      | ok removed =>
          rw [hw] at hstep
          exact Or.inr ⟨rfl, removed, rfl, Except.ok.inj hstep⟩

/-- The document after some writes of a batch, or the error of the write that failed. -/
def outcome (result : Except (Batch × Error) Batch) : Outcome Document :=
  match result with
  | .ok batch => .ok batch.document
  | .error (_, error) => .error error

/-- **Removals at later paths first leave out exactly the nodes at the paths**, or fail at the first
path whose node cannot be removed. Missing paths do not occur. -/
theorem writeEach_remove {document : Document} (hd : document.namesDistinct = true)
    (skipMissing : Bool) {paths : List Path} {batch : Batch} {gone : Path → Bool}
    (hb : batch.document = document.without gone)
    (hs : paths.Pairwise fun a b => compare b a = .lt)
    (hg : ∀ path ∈ paths, ∀ other, gone other = true → compare path other = .lt)
    (hn : ∀ path ∈ paths, (document.nodeAt? path).isSome = true) :
    outcome (Batch.writeEach skipMissing (fun batch path => (batch.remove path).map Prod.snd)
        batch paths) =
      match paths.findSome? document.removalError? with
      | some error => .error error
      | none => .ok (document.without fun path => paths.contains path || gone path) := by
  induction paths generalizing batch gone with
  | nil => exact congrArg Except.ok hb
  | cons path rest ih =>
      obtain ⟨hbelow, hs⟩ := List.pairwise_cons.1 hs
      obtain ⟨hgp, hg⟩ := List.forall_mem_cons.1 hg
      obtain ⟨hnp, hn⟩ := List.forall_mem_cons.1 hn
      rw [List.findSome?_cons]
      rcases batch_remove_cases hd hb hnp hgp with
        ⟨error, he, hw⟩ | ⟨he, removed, hw, hnext⟩
      · simp [Batch.writeEach, hw, he, Except.map, isMissingPath_removalError? he, outcome]
      · have hrest := ih hnext hs (fun other hm p hp => ?_) hn
        · have hgone : (fun p => (path :: rest).contains p || gone p) =
              fun p => rest.contains p || adding path gone p := by
            funext p
            rw [List.contains_cons, adding, Bool.or_comm (p == path), Bool.or_assoc]
          rw [Batch.writeEach, hw, he, hgone]
          exact hrest
        · -- the path itself comes after the rest, like everything left out before
          rcases Bool.or_eq_true_iff.1 hp with hp | hp
          · rw [beq_iff_eq.1 hp]
            exact hbelow other hm
          · exact hg other hm p hp

end Navigator

/-! ## The topmost matches -/

namespace Traversal

variable {traversal : Traversal} {predicate : Document → Bool}

/-- Whether the node at a path below a node at a depth is a match that the walk reaches without
passing another one. -/
def isTopmost (traversal : Traversal) (predicate : Document → Bool) (depth : Nat) :
    Document → Path → Bool
  | node, [] => predicate node
  | node, token :: rest =>
    !predicate node && traversal.expands node depth &&
      match node.child? token with
      | some child => isTopmost traversal predicate (depth + 1) child rest
      | none => false

theorem lowered_lowered (traversal : Traversal) (a b : Nat) :
    (traversal.lowered a).lowered b = traversal.lowered (a + b) := by
  simp [lowered, Nat.sub_sub]

theorem cons_mem_paths_iff {token : Token} {path : Path} {visits : List (Path × Document)} :
    path ∈ (under token visits).map Prod.fst ↔ token :: path ∈ visits.map Prod.fst := by
  simp only [List.mem_map, Prod.exists, exists_and_right, exists_eq_right, mem_under_iff]

/-- **A search finds the topmost matches.** -/
theorem mem_findPaths_iff {node : Document} (hd : node.namesDistinct = true) (depth : Nat)
    {path : Path} :
    path ∈ ((traversal.lowered depth).findPaths predicate node).map Prod.fst ↔
      traversal.isTopmost predicate depth node path = true := by
  -- induction on the path, one level of the document at a time
  induction path generalizing node depth with
  | nil =>
      rw [isTopmost]
      cases h : predicate node with
      | true => simp [findPaths_of_match h]
      | false =>
          refine iff_of_false (fun hm => ?_) Bool.false_ne_true
          obtain ⟨found, hm, he⟩ := List.mem_map.1 hm
          obtain ⟨child, -, rest, hpath⟩ := exists_child_of_mem_findPaths h hm
          cases he.symm.trans hpath
  | cons token rest ih =>
      rw [isTopmost]
      cases h : predicate node with
      | true => simp [findPaths_of_match h]
      | false =>
          cases hx : traversal.expands node depth with
          | false =>
              have hx' : (traversal.lowered depth).expands node 0 = false := by
                rw [expands_lowered, Nat.add_zero, hx]
              simp [findPaths_of_not_expands h hx']
          | true =>
              have hx' : (traversal.lowered depth).expands node 0 = true := by
                rw [expands_lowered, Nat.add_zero, hx]
              cases hc : node.child? token with
              | none =>
                  -- a path that is found begins with the token of a child
                  refine iff_of_false (fun hm => ?_) Bool.false_ne_true
                  obtain ⟨found, hm, he⟩ := List.mem_map.1 hm
                  obtain ⟨child, hchild, other, hpath⟩ := exists_child_of_mem_findPaths h hm
                  have htoken : token ∈ node.tokens := by
                    rw [he] at hpath
                    cases hpath
                    exact List.mem_map_of_mem hchild
                  obtain ⟨child', hc'⟩ := Document.exists_child?_iff.2 htoken
                  cases hc.symm.trans hc'
              | some child =>
                  have hm := Document.mem_children_of_child? hc
                  have hchild := ih (Document.everywhere_of_mem_children hd hm) (depth + 1)
                  rw [← lowered_lowered, ← under_findPaths hd h hx' hm, cons_mem_paths_iff] at hchild
                  exact hchild

/-- The order of the walk does not matter to what the topmost matches are. -/
theorem isTopmost_order (order : Order) (depth : Nat) (node : Document) (path : Path) :
    isTopmost { traversal with order := order } predicate depth node path =
      traversal.isTopmost predicate depth node path := by
  induction path generalizing depth node with
  | nil => rfl
  | cons token rest ih =>
      rw [isTopmost, isTopmost]
      cases node.child? token with
      | none => rfl
      | some child =>
          dsimp only
          rw [ih]
          rfl

theorem exists_nodeAt?_of_isTopmost {depth : Nat} {node : Document} {path : Path}
    (h : traversal.isTopmost predicate depth node path = true) :
    (node.nodeAt? path).isSome = true := by
  induction path generalizing depth node with
  | nil => rfl
  | cons token rest ih =>
      rw [isTopmost, Bool.and_eq_true] at h
      rw [Document.nodeAt?]
      cases hc : node.child? token with
      | none =>
          rw [hc] at h
          exact absurd h.2 Bool.false_ne_true
      | some child =>
          rw [hc] at h
          exact ih h.2

end Traversal

namespace Match.ValueMatcher

/-- The paths of the matches in the order in which the nodes at them are removed. -/
def removals (matcher : ValueMatcher) (document : Document) (options : SearchOptions) : List Path :=
  ((matcher.topmost document options).map Prod.fst).mergeSort fun a b => b.le a

variable {matcher : ValueMatcher} {document : Document} {options : SearchOptions}

theorem pairwise_removals :
    (matcher.removals document options).Pairwise fun a b => Path.le b a = true := by
  refine List.pairwise_mergeSort (fun a b c hab hbc => ?_) (fun a b => ?_) _
  · exact Std.TransCmp.isLE_trans hbc hab
  · rw [Path.le, Path.le, Std.OrientedOrd.eq_swap (a := a)]
    cases compare b a <;> rfl

section

variable (hd : document.namesDistinct = true)

include hd

theorem mem_removals_iff {path : Path} :
    path ∈ matcher.removals document options ↔
      options.traversal.isTopmost matcher.isMatch 0 document path = true := by
  rw [removals, List.mem_mergeSort, topmost]
  exact Traversal.mem_findPaths_iff hd 0

theorem nodup_removals :
    (matcher.removals document options).Nodup := by
  have hwalk : ((options.traversal.walk (fun _ => Traversal.searchVisit matcher.isMatch)
      document).map Prod.fst).Nodup :=
    Traversal.nodup_paths_walk (fun _ => Traversal.searchVisit_ne_stop) hd
  refine (List.mergeSort_perm _ _).nodup_iff.2 (hwalk.sublist ?_)
  rw [topmost, Traversal.findPaths_eq]
  exact List.filter_sublist.map Prod.fst

/-- Something is found among the removals if it is found at a topmost match. -/
theorem isSome_findSome?_removals_iff {α : Type} (error? : Path → Option α) :
    ((matcher.removals document options).findSome? error?).isSome = true ↔
      ∃ path, options.traversal.isTopmost matcher.isMatch 0 document path = true ∧
        (error? path).isSome = true := by
  rw [List.findSome?_isSome_iff]
  exact exists_congr fun path => and_congr_left' (mem_removals_iff hd)

/-- **Removals come at later paths first.** -/
theorem removals_descending :
    (matcher.removals document options).Pairwise fun a b => compare b a = .lt := by
  refine (pairwise_removals.and (nodup_removals hd)).imp fun {a b} h => ?_
  obtain ⟨hle, hne⟩ := h
  cases hc : compare b a with
  | lt => rfl
  | eq => exact absurd (Std.LawfulEqCmp.eq_of_compare hc).symm hne
  | gt =>
      rw [Path.le, hc] at hle
      cases hle

/-- The order of the walk does not matter to the order of the removals. -/
theorem removals_order (order : Order) (skipMissing : Bool) :
    matcher.removals document ⟨skipMissing, { options.traversal with order := order }⟩ =
      matcher.removals document options := by
  have hperm : (matcher.removals document
      ⟨skipMissing, { options.traversal with order := order }⟩).Perm
        (matcher.removals document options) := by
    refine (List.perm_ext_iff_of_nodup (nodup_removals hd) (nodup_removals hd)).2 fun path => ?_
    rw [mem_removals_iff hd, mem_removals_iff hd, Traversal.isTopmost_order]
  refine hperm.eq_of_pairwise (fun a b _ _ hab hba => ?_)
    (removals_descending hd) (removals_descending hd)
  exact absurd (hab.symm.trans (Std.OrientedCmp.gt_of_lt hba)) Ordering.noConfusion

end

end Match.ValueMatcher

namespace Navigator

open Match

variable {navigator : Navigator} {matcher : ValueMatcher} {document : Document}
  {options : SearchOptions}

/-- **A search that removes leaves the document without the topmost matches**, or fails at the last
one that cannot be removed. -/
theorem removeMatches_eq (hd : document.namesDistinct = true) :
    navigator.removeMatches document matcher options =
      match (matcher.removals document options).findSome? document.removalError? with
      | some error => .error error
      | none =>
        .ok (document.without (options.traversal.isTopmost matcher.isMatch 0 document)) := by
  -- the run starts with nothing gone and ends with all topmost matches gone
  have hstart : (Batch.start navigator document).document = document.without fun _ => false :=
    (document.without_none).symm
  have hdescending : (matcher.removals document options).Pairwise fun a b => compare b a = .lt :=
    ValueMatcher.removals_descending hd
  have hrun := writeEach_remove hd options.skipMissing hstart hdescending
    (fun _ _ _ h => absurd h Bool.false_ne_true)
    (fun path hm => Traversal.exists_nodeAt?_of_isTopmost
      ((ValueMatcher.mem_removals_iff hd).1 hm))
  have hgone : (fun path => (matcher.removals document options).contains path || false) =
      options.traversal.isTopmost matcher.isMatch 0 document := by
    funext path
    rw [Bool.or_false, Bool.eq_iff_iff, List.contains_iff_mem,
      ValueMatcher.mem_removals_iff hd]
  rw [hgone] at hrun
  rw [← hrun, removeMatches, Batch.removeMatches]
  rfl

/-- **A search that removes fails exactly at the root and at fields of records.** If no topmost
match is the root or a field of a record, the result is the document without the topmost matches:
all other nodes stay, in their order. Whether it fails, with which error, and what it leaves does
not depend on the order of the walk and on whether missing paths are skipped. -/
theorem removeMatches_topmost (navigator : Navigator) (matcher : ValueMatcher)
    (options : SearchOptions) {document : Document} (hd : document.namesDistinct = true) :
    let topmost := options.traversal.isTopmost matcher.isMatch 0 document
    let stuck := topmost [] = true ∨ ∃ above last name fields,
      topmost (above ++ [last]) = true ∧ document.nodeAt? above = some (.record name fields)
    ((∃ error, navigator.removeMatches document matcher options = .error error) ↔ stuck) ∧
    (¬ stuck →
      navigator.removeMatches document matcher options = .ok (document.without topmost)) ∧
    ∀ order skipMissing,
      navigator.removeMatches document matcher
          ⟨skipMissing, { options.traversal with order := order }⟩ =
        navigator.removeMatches document matcher options := by
  intro topmost stuck
  -- some removal fails exactly if a match stands where nothing can be removed
  have hstuck : ((matcher.removals document options).findSome? document.removalError?).isSome =
      true ↔ stuck := by
    rw [ValueMatcher.isSome_findSome?_removals_iff hd]
    constructor
    · rintro ⟨path, ht, he⟩
      rcases isSome_removalError?_iff.1 he with rfl | ⟨above, last, name, fields, rfl, hnode⟩
      · exact Or.inl ht
      · exact Or.inr ⟨above, last, name, fields, ht, hnode⟩
    · rintro (ht | ⟨above, last, name, fields, ht, hnode⟩)
      · exact ⟨[], ht, rfl⟩
      · exact ⟨above ++ [last], ht,
          isSome_removalError?_iff.2 (Or.inr ⟨above, last, name, fields, rfl, hnode⟩)⟩
  refine ⟨?_, fun hfree => ?_, fun order skipMissing => ?_⟩
  · rw [removeMatches_eq hd, ← hstuck]
    cases (matcher.removals document options).findSome? document.removalError? with
    | some error => exact iff_of_true ⟨error, rfl⟩ rfl
    | none => exact iff_of_false nofun Bool.false_ne_true
  · rw [removeMatches_eq hd, Option.not_isSome_iff_eq_none.1 fun he => hfree (hstuck.1 he)]
  · -- neither setting occurs in what has been computed
    rw [removeMatches_eq hd, removeMatches_eq hd, ValueMatcher.removals_order hd]
    have htopmost : Traversal.isTopmost { options.traversal with order := order }
        matcher.isMatch 0 document = options.traversal.isTopmost matcher.isMatch 0 document :=
      funext fun path => Traversal.isTopmost_order order 0 document path
    rw [htopmost]

/-- Two matches below one entry and one beside it. -/
theorem removeMatches_topmost_integers :
    let matcher : ValueMatcher := ⟨[⟨false, .predicate fun node => node.int?.isSome⟩], false⟩
    let options : SearchOptions := ⟨false, ⟨.depthFirst, [], [], 100, 10⟩⟩
    let document : Document :=
      .mapping [("a", .sequence [.int 1, .string "x", .int 2]), ("b", .int 3)]
    document.namesDistinct = true ∧
      standard.removeMatches document matcher options =
        .ok (.mapping [("a", .sequence [.string "x"])]) := by
  intro matcher options document
  have hd : document.namesDistinct = true := by decide
  obtain ⟨-, hfree, -⟩ := removeMatches_topmost standard matcher options hd
  refine ⟨hd, hfree ?_⟩
  rintro (hroot | ⟨above, last, name, fields, -, hnode⟩)
  · cases hroot
  · -- there is no record in the document
    have hkinds : document.everywhere (fun node => decide (node.kind ≠ .record)) = true := by decide
    have hkind := (Document.everywhere_iff.1 (Document.everywhere_of_nodeAt? hkinds hnode)).1
    cases hkind

end Navigator

end PathDoc
