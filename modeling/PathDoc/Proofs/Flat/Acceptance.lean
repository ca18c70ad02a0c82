import PathDoc.Proofs.Flat.Leaves
import PathDoc.Proofs.Flat.Shadowing

/-!
# Which dictionaries of leaves are unflattened

Without markers the shape of a document shows in the tokens of the paths alone. The values of a
level are assembled if its tokens are all names, or the positions from zero to some bound
(`exists_assemble_iff`), so a tree is built exactly if it has such levels and no value above another
one (`exists_build_iff`). In the paths of a dictionary this means that none is a strict prefix of
another and that every path goes on uniformly (`isPlain_ofDict_iff`). What is built has the values
of the dictionary as its leaves, each at its path, so flattening it gives the dictionary back
(`unflatten_leaves`).
-/

set_option autoImplicit false

namespace PathDoc

/-- Tokens that can stand on one level: all of them are names, or they are the positions from zero
to some bound. -/
def IsLevel (tokens : Token → Prop) : Prop :=
  (∀ token, tokens token → token.isIndex = false) ∨
    ∃ n : Nat, ∀ token, tokens token ↔ ∃ i : Nat, i < n ∧ token = .index i

namespace PathDict

/-- No path of a dictionary is a strict prefix of another one. -/
def PrefixFree (dict : PathDict) : Prop :=
  ∀ a ∈ dict.entries, ∀ b ∈ dict.entries, a.1 <+: b.1 → a.1 = b.1

/-- Under every path the paths of a dictionary go on with the tokens of one level. -/
def UniformLevels (dict : PathDict) : Prop :=
  ∀ path, IsLevel fun token => dict.reaches (path ++ [token]) = true

end PathDict

namespace TokenTree

/-! ## Assembling a level -/

/-- The positions from zero on, in order, are the tokens of as many items. -/
theorem mem_positions_iff {items : List Document} {token : Token} :
    token ∈ (Document.positions 0 items).map Prod.fst ↔
      ∃ i : Nat, i < items.length ∧ token = .index i := by
  rw [Document.positions_tokens, List.mem_map]
  simp only [List.mem_range'_1, Nat.zero_le, true_and, Nat.zero_add]
  exact exists_congr fun i => and_congr_right fun _ => eq_comm

/-- **Values are assembled without a marker exactly if their tokens can stand on one level.** -/
theorem exists_assemble_iff (path : Path) {values : List (Token × Document)}
    (hs : values.Pairwise fun a b => compare a.1 b.1 = .lt) :
    (∃ marker document, markerFor path none (values.map Prod.fst) = .ok marker ∧
        assemble path values marker = .ok document) ↔
      IsLevel (· ∈ values.map Prod.fst) := by
  constructor
  · rintro ⟨marker, document, hmarker, hassemble⟩
    rcases assemble_cases hassemble with ⟨rfl, -⟩ | ⟨items, rfl, -⟩
    · left
      intro token ht
      have hmarked : Marked path none (values.map Prod.fst) .mapping := Or.inr ⟨rfl, hmarker⟩
      exact hmarked.isIndex (Option.some_ne_none _).symm ht
    · exact Or.inr ⟨items.length, fun token => mem_positions_iff⟩
  · rintro (hnames | ⟨n, hpositions⟩)
    · cases values with
      | nil => exact ⟨.sequence, .sequence [], rfl, rfl⟩
      | cons first rest =>
          refine ⟨.mapping, _, ?_, rfl⟩
          have hfirst : ((first :: rest).map Prod.fst).all Token.isIndex = false := by
            rw [List.map_cons, List.all_cons, hnames first.1 List.mem_cons_self, Bool.false_and]
          have hall : ((first :: rest).map Prod.fst).all (fun token => !token.isIndex) = true := by
            rw [List.all_eq_true]
            exact fun token ht => by rw [hnames token ht, Bool.not_false]
          rw [markerFor, hfirst, if_neg Bool.false_ne_true, hall, if_pos rfl]
    · -- the tokens come in order, so they are the positions of items one after the other
      have htokens : values.map Prod.fst =
          (Document.positions 0 (List.replicate n .null)).map Prod.fst := by
        refine eq_of_mem_iff_of_sorted id (List.pairwise_map.2 hs)
          (List.pairwise_map.2 (Document.positions_sorted 0 _)) fun token => ?_
        rw [mem_positions_iff, List.length_replicate]
        exact hpositions token
      have hall : (values.map Prod.fst).all Token.isIndex = true := by
        rw [List.all_eq_true]
        intro token ht
        obtain ⟨i, -, rfl⟩ := (hpositions token).1 ht
        rfl
      refine ⟨.sequence, .sequence (values.map Prod.snd), by simp [markerFor, hall], ?_⟩
      rw [assemble, positional_of_tokens path htokens]
      rfl

/-- **What is assembled from a level has the values as its children.** -/
theorem children_of_assemble {path : Path} {values : List (Token × Document)} {marker : Marker}
    {document : Document} (hn : (values.map Prod.fst).Nodup)
    (hmarker : markerFor path none (values.map Prod.fst) = .ok marker)
    (h : assemble path values marker = .ok document) : document.children = values := by
  have hmarked : Marked path none (values.map Prod.fst) marker := Or.inr ⟨rfl, hmarker⟩
  rcases assemble_cases h with ⟨rfl, rfl⟩ | ⟨items, rfl, ⟨rfl, rfl⟩ | ⟨rfl, rfl⟩ |
      ⟨name, fields, rfl, hlength, rfl⟩⟩
  · -- the tokens are names, so the names of the entries give them back
    have hkey : ∀ value ∈ values, Token.key value.1.text = value.1 := by
      rintro ⟨token, document⟩ hv
      have hname := hmarked.isIndex (Option.some_ne_none _).symm (List.mem_map_of_mem hv)
      cases token with
      | index position => cases hname
      | key name => rfl
    have hnames : (Entries.names (values.map fun child => (child.1.text, child.2))).Nodup := by
      have hback : ((values.map fun child => child.1.text).map Token.key) = values.map Prod.fst := by
        rw [List.map_map]
        exact List.map_congr_left hkey
      rw [Entries.names, List.map_map]
      exact List.Nodup.of_map Token.key (hback ▸ hn)
    rw [Document.ofPairs, Entries.ofList_of_nodup hnames, Document.children, List.map_map]
    have hback : ∀ value ∈ values, (Token.key value.1.text, value.2) = value :=
      fun value hv => congrArg (·, value.2) (hkey value hv)
    exact (List.map_congr_left hback).trans (List.map_id values)
  · rfl
  · exact absurd rfl (hmarked.ne_set (Option.some_ne_none _).symm)
  · rw [Document.children, List.map_snd_zip hlength.le]

/-! ## Building a tree -/

/-- A node that can be built without a marker, if its children can: a value without children, or a
level of children. -/
def IsPlain : TokenTree → Prop
  | node own children =>
    ((∃ value, own = some (.value value)) ∧ children = []) ∨
      (own = none ∧ IsLevel (· ∈ children.map Prod.fst))

theorem sorted_of_built {path : Path} {children : List (Token × TokenTree)}
    {values : List (Token × Document)} (h : List.Forall₂ (Built path) children values)
    (hs : children.Pairwise fun a b => compare a.1 b.1 = .lt) :
    values.Pairwise fun a b => compare a.1 b.1 = .lt := by
  rw [← List.pairwise_map (f := Prod.fst) (R := fun a b => compare a b = .lt), tokens_of_built h,
    List.pairwise_map]
  exact hs

/-- **A node without an entry is built exactly if its children stand on one level and are built.**
-/
theorem exists_build_none_iff {children : List (Token × TokenTree)}
    (order : children.Pairwise fun a b => compare a.1 b.1 = .lt) (path : Path) :
    (∃ document, (node none children).build path = .ok document) ↔
      IsLevel (· ∈ children.map Prod.fst) ∧
        ∀ child ∈ children, ∃ document, child.2.build (path ++ [child.1]) = .ok document := by
  constructor
  · rintro ⟨document, h⟩
    rcases build_cases h with ⟨hown, -⟩ | ⟨marker, values, hmarked, hbuilt, hassemble⟩
    · -- without an entry the marker is read off the tokens of the children
      cases hown
    · obtain ⟨-, hmarker⟩ := hmarked.resolve_left (Option.some_ne_none _).symm
      rw [← tokens_of_built hbuilt] at hmarker ⊢
      refine ⟨(exists_assemble_iff path (sorted_of_built hbuilt order)).1
        ⟨marker, document, hmarker, hassemble⟩, fun child hc => ?_⟩
      obtain ⟨value, -, hvalue⟩ := lookup_of_built hbuilt (lookup_of_mem (keys_nodup order) hc)
      exact ⟨value, hvalue⟩
  · rintro ⟨hlevel, hchildren⟩
    -- the built children are put side by side, then the marker of their level assembles them
    choose! built hbuild using hchildren
    have hbuilt : List.Forall₂ (Built path) children
        (children.map fun child => (child.1, built child)) := by
      rw [List.forall₂_map_right_iff, List.forall₂_same]
      exact fun child hc => ⟨rfl, hbuild child hc⟩
    rw [← tokens_of_built hbuilt] at hlevel
    obtain ⟨marker, document, hmarker, hassemble⟩ :=
      (exists_assemble_iff path (sorted_of_built hbuilt order)).2 hlevel
    refine ⟨document, ?_⟩
    rw [tokens_of_built hbuilt] at hmarker
    rw [build, hmarker, buildChildren_of_built hbuilt]
    exact hassemble

/-- What holds at all nodes of a tree holds at its root and at all nodes of its children. -/
theorem forall_subtree?_iff {holds : TokenTree → Prop} {own : Option Entry}
    {children : List (Token × TokenTree)} (hn : (children.map Prod.fst).Nodup) :
    (∀ below inner, (node own children).subtree? below = some inner → holds inner) ↔
      holds (node own children) ∧
        ∀ child ∈ children, ∀ below inner, child.2.subtree? below = some inner → holds inner := by
  constructor
  · intro h
    refine ⟨h [] _ rfl, fun child hc below inner hb => h (child.1 :: below) inner ?_⟩
    rwa [subtree?_cons, lookup_of_mem hn hc]
  · rintro ⟨hroot, hchildren⟩ below inner hb
    cases below with
    | nil =>
        cases hb
        exact hroot
    | cons token below =>
        obtain ⟨child, hc, hb⟩ := Option.bind_eq_some_iff.1 hb
        exact hchildren _ (mem_of_lookup hc) below inner hb

/-- **A tree without markers is built exactly if all its nodes are plain.** -/
theorem exists_build_iff {tree : TokenTree} (hs : tree.IsSorted)
    (hm : ∀ below kind, tree.entryAt? below ≠ some (.marker kind)) (path : Path) :
    (∃ document, tree.build path = .ok document) ↔
      ∀ below inner, tree.subtree? below = some inner → inner.IsPlain := by
  induction hs generalizing path with
  | @node own children order _ ih =>
    rw [forall_subtree?_iff (keys_nodup order)]
    cases own with
    | none =>
        rw [exists_build_none_iff order]
        refine and_congr (by simp [IsPlain]) (forall₂_congr fun child hc => ih child hc ?_ _)
        intro below kind he
        refine hm (child.1 :: below) kind ?_
        rwa [entryAt?, subtree?_cons, lookup_of_mem (keys_nodup order) hc]
    | some entry =>
        cases entry with
        | marker kind => exact absurd rfl (hm [] kind)
        | value value =>
            -- a value is built unless there are children below it
            cases children with
            | nil =>
                refine iff_of_true ⟨value, rfl⟩ ⟨Or.inl ⟨⟨value, rfl⟩, rfl⟩, ?_⟩
                intro child hc
                cases hc
            | cons child rest =>
                refine iff_of_false ?_ ?_
                · rintro ⟨document, h⟩
                  cases h
                · rintro ⟨hplain, -⟩
                  simp [IsPlain] at hplain

/-- Without markers a node is built from its value, or its children become those of a container. -/
theorem build_plain_cases {own : Option Entry} {children : List (Token × TokenTree)} {path : Path}
    {document : Document} (hs : (node own children).IsSorted)
    (hm : ∀ kind, own ≠ some (.marker kind)) (h : (node own children).build path = .ok document) :
    (own = some (.value document) ∧ children = []) ∨
      (own = none ∧ List.Forall₂ (Built path) children document.children) := by
  obtain ⟨order, -⟩ := hs
  refine (build_cases h).imp_right fun ⟨marker, values, hmarked, hbuilt, hassemble⟩ => ?_
  obtain ⟨rfl, hmarker⟩ := hmarked.resolve_left (hm marker)
  rw [← tokens_of_built hbuilt] at hmarker
  rw [children_of_assemble (keys_nodup (sorted_of_built hbuilt order)) hmarker hassemble]
  exact ⟨rfl, hbuilt⟩

/-- **The leaves of what is built from a tree of leaves are the values of the tree.** -/
theorem leafAt_iff_entryAt? {tree : TokenTree} {path below : Path} {document value : Document}
    (hs : tree.IsSorted) (hv : ∀ below entry, tree.entryAt? below = some entry → entry.isLeaf = true)
    (he : ∀ below, tree.subtree? below ≠ some empty) (h : tree.build path = .ok document) :
    document.nodeAt? below = some value ∧ value.isLeaf = true ↔
      tree.entryAt? below = some (.value value) := by
  -- induction on the address, with the node of the tree that the part was built from
  induction below generalizing tree path document with
  | nil =>
      obtain ⟨own, children⟩ := tree
      change some document = some value ∧ value.isLeaf = true ↔ own = some (.value value)
      rw [Option.some.injEq]
      rcases build_plain_cases hs (fun kind ho => nomatch hv [] _ ho) h with
        ⟨rfl, rfl⟩ | ⟨rfl, hbuilt⟩
      · have hleaf : document.isLeaf = true := hv [] _ rfl
        rw [Option.some.injEq, Entry.value.injEq]
        exact ⟨fun h => h.1, fun h => ⟨h, h ▸ hleaf⟩⟩
      · -- a node without an entry has children, so what is built from it is no leaf
        refine iff_of_false ?_ (fun h => nomatch h)
        rintro ⟨rfl, hleaf⟩
        rw [Document.isLeaf_iff.1 hleaf, List.forall₂_nil_right_iff] at hbuilt
        exact he [] (congrArg some (congrArg (node none) hbuilt))
  | cons token below ih =>
      obtain ⟨own, children⟩ := tree
      rw [Document.nodeAt?, Document.child?, entryAt?, subtree?_cons]
      rcases build_plain_cases hs (fun kind ho => nomatch hv [] _ ho) h with
        ⟨rfl, rfl⟩ | ⟨rfl, hbuilt⟩
      · have hleaf : document.isLeaf = true := hv [] _ rfl
        rw [Document.isLeaf_iff.1 hleaf]
        simp
      · cases hc : children.lookup token with
        | none =>
            have hnone : document.children.lookup token = none := by
              rw [← Option.not_isSome_iff_eq_none, isSome_lookup_iff, tokens_of_built hbuilt,
                ← isSome_lookup_iff, hc]
              exact Bool.false_ne_true
            rw [hnone]
            simp
        | some child =>
            obtain ⟨built, hlookup, hbuild⟩ := lookup_of_built hbuilt hc
            have hsub : ∀ path, (node none children).subtree? (token :: path) = child.subtree? path :=
              fun path => by rw [subtree?_cons, hc, Option.bind_some]
            rw [hlookup, Option.bind_some, Option.bind_some]
            refine ih (hs.subtree? (hsub [] ▸ subtree?_nil child)) (fun path entry hentry => ?_)
              (fun path => hsub path ▸ he (token :: path)) hbuild
            refine hv (token :: path) entry ?_
            rwa [entryAt?, hsub]

theorem exists_child_of_built {path : Path} {children : List (Token × TokenTree)}
    {values : List (Token × Document)} (h : List.Forall₂ (Built path) children values)
    {value : Token × Document} (hv : value ∈ values) : ∃ child ∈ children, Built path child value := by
  induction h with
  | nil => cases hv
  | cons hb _ ih =>
      rcases List.mem_cons.1 hv with rfl | hv
      · exact ⟨_, List.mem_cons_self, hb⟩
      · obtain ⟨child, hc, hb⟩ := ih hv
        exact ⟨child, List.mem_cons_of_mem _ hc, hb⟩

/-- **What holds of all assembled containers and everywhere in the values of a tree holds everywhere
in what is built from it.** -/
theorem everywhere_of_build {condition : Document → Bool}
    (hc : ∀ {path values marker document}, assemble path values marker = .ok document →
      condition document = true)
    {tree : TokenTree} {path : Path} {document : Document} (hs : tree.IsSorted)
    (hv : ∀ below value, tree.entryAt? below = some (.value value) →
      value.everywhere condition = true)
    (h : tree.build path = .ok document) : document.everywhere condition = true := by
  induction hs generalizing path document with
  | @node own children order _ ih =>
    rcases build_cases h with ⟨rfl, rfl⟩ | ⟨marker, values, -, hbuilt, hassemble⟩
    · exact hv [] _ rfl
    · refine everywhere_assemble hassemble (hc hassemble) fun value hm => ?_
      obtain ⟨built, hb, rfl⟩ := List.mem_map.1 hm
      obtain ⟨child, hchild, -, hbuild⟩ := exists_child_of_built hbuilt hb
      refine ih child hchild (fun below value he => hv (child.1 :: below) value ?_) hbuild
      rw [entryAt?, subtree?_cons, lookup_of_mem (keys_nodup order) hchild]
      exact he

/-- What is built from a tree of leaves has distinct names. -/
theorem namesDistinct_of_build {tree : TokenTree} {path : Path} {document : Document}
    (hs : tree.IsSorted) (hv : ∀ below entry, tree.entryAt? below = some entry → entry.isLeaf = true)
    (h : tree.build path = .ok document) : document.namesDistinct = true := by
  refine everywhere_of_build hasDistinctNames_assemble hs (fun below value he => ?_) h
  exact Document.namesDistinct_of_isLeaf (hv below _ he)

end TokenTree

/-! ## Dictionaries -/

namespace PathDict

variable {dict : PathDict}

/-- A path of the dictionary goes on with a token if it is a strict prefix of another one. -/
theorem exists_reaches_of_prefix {path : Path} {e : Path × Entry} (he : e ∈ dict.entries)
    (hp : path <+: e.1) (hne : path ≠ e.1) :
    ∃ token, dict.reaches (path ++ [token]) = true := by
  obtain ⟨token, ht⟩ := exists_token_of_prefix hp hne
  exact ⟨token, reaches_iff.2 ⟨e, he, ht⟩⟩

section

variable {path : Path} {own : Option Entry} {children : List (Token × TokenTree)}

/-- The children of a node of the tree have the tokens with which its path goes on. -/
theorem mem_tokens_iff (ht : (TokenTree.ofDict dict).subtree? path = some (.node own children))
    (token : Token) :
    token ∈ children.map Prod.fst ↔ dict.reaches (path ++ [token]) = true := by
  rw [TokenTree.reaches_append ht, TokenTree.subtree?_cons, ← TokenTree.isSome_lookup_iff]
  simp

/-- The tokens of a plain node stand on one level. -/
theorem isLevel_of_isPlain (ht : (TokenTree.ofDict dict).subtree? path = some (.node own children))
    (h : (TokenTree.node own children).IsPlain) :
    IsLevel fun token => dict.reaches (path ++ [token]) = true := by
  simp only [← mem_tokens_iff ht]
  rcases h with ⟨-, rfl⟩ | ⟨-, hlevel⟩
  · exact Or.inl fun token hm => nomatch hm
  · exact hlevel

/-- No path goes on at a plain node with an entry. -/
theorem reaches_of_isPlain (ht : (TokenTree.ofDict dict).subtree? path = some (.node own children))
    (h : (TokenTree.node own children).IsPlain) {entry : Entry} (ho : own = some entry)
    (token : Token) : dict.reaches (path ++ [token]) ≠ true := by
  rw [ne_eq, ← mem_tokens_iff ht]
  rcases h with ⟨-, rfl⟩ | ⟨hnone, -⟩
  · exact List.not_mem_nil
  · cases hnone.symm.trans ho

/-- A node is plain if its path ends there or goes on with the tokens of one level. -/
theorem isPlain_of_uniformLevels (hv : ∀ e ∈ dict.entries, e.2.isLeaf = true)
    (hfree : dict.PrefixFree) (hlevels : dict.UniformLevels)
    (ht : (TokenTree.ofDict dict).subtree? path = some (.node own children)) :
    (TokenTree.node own children).IsPlain := by
  have hget : own = dict.get? path := TokenTree.own_of_subtree? ht
  cases own with
  | none =>
      have hlevel := hlevels path
      simp only [← mem_tokens_iff ht] at hlevel
      exact Or.inr ⟨rfl, hlevel⟩
  | some entry =>
      have he := get?_eq_some_iff.1 hget.symm
      cases entry with
      | marker kind => cases hv _ he
      | value value =>
          refine Or.inl ⟨⟨value, rfl⟩, List.eq_nil_iff_forall_not_mem.2 fun child hc => ?_⟩
          -- a child would belong to a path that goes on where this one ends
          have hm : child.1 ∈ children.map Prod.fst := List.mem_map_of_mem hc
          obtain ⟨e, hmem, hp⟩ := reaches_iff.1 ((mem_tokens_iff ht child.1).1 hm)
          have hpath := hfree _ he e hmem ((List.prefix_append path [child.1]).trans hp)
          have hlength := hp.length_le
          rw [← hpath, List.length_append, List.length_singleton] at hlength
          exact Nat.not_succ_le_self _ hlength

end

/-- **The nodes of a dictionary are plain exactly if no path is a strict prefix of another one and
all paths go on uniformly.** -/
theorem isPlain_ofDict_iff (hv : ∀ e ∈ dict.entries, e.2.isLeaf = true) :
    (∀ path inner, (TokenTree.ofDict dict).subtree? path = some inner → inner.IsPlain) ↔
      dict.PrefixFree ∧ dict.UniformLevels := by
  refine ⟨fun h => ⟨fun a ha b hb hp => ?_, fun path => ?_⟩, ?_⟩
  · by_contra hne
    obtain ⟨token, ht⟩ := exists_reaches_of_prefix hb hp hne
    have hget := get?_eq_some_iff.2 ha
    rw [← TokenTree.entryAt?_ofDict] at hget
    obtain ⟨⟨own, children⟩, hsub, hown⟩ := Option.bind_eq_some_iff.1 hget
    exact reaches_of_isPlain hsub (h a.1 _ hsub) hown token ht
  · cases hsub : (TokenTree.ofDict dict).subtree? path with
    | none =>
        -- without a node there is no path that goes on
        refine Or.inl fun token ht => ?_
        have hbelow := (TokenTree.subtree?_ofDict dict (List.concat_ne_nil token path)).2
          (reaches_iff.1 ht)
        rw [TokenTree.subtree?_append, hsub] at hbelow
        cases hbelow
    | some inner =>
        obtain ⟨own, children⟩ := inner
        exact isLevel_of_isPlain hsub (h path _ hsub)
  · rintro ⟨hfree, hlevels⟩ path ⟨own, children⟩ hsub
    exact isPlain_of_uniformLevels hv hfree hlevels hsub

/-- No node of the tree of a dictionary is without an entry at or below it. -/
theorem subtree?_ofDict_ne_empty (hne : dict.entries ≠ []) (path : Path) :
    (TokenTree.ofDict dict).subtree? path ≠ some .empty := by
  intro h
  obtain ⟨e, he, hp⟩ : ∃ e ∈ dict.entries, path <+: e.1 := by
    by_cases hpath : path = []
    · obtain ⟨e, rest, hentries⟩ := List.exists_cons_of_ne_nil hne
      exact ⟨e, hentries ▸ List.mem_cons_self, hpath ▸ List.nil_prefix⟩
    · exact (TokenTree.subtree?_ofDict dict hpath).1 (by rw [h]; rfl)
  have hnone : none = dict.get? path := TokenTree.own_of_subtree? h
  by_cases hpath : path = e.1
  · rw [hpath, get?_eq_some_iff.2 he] at hnone
    cases hnone
  · obtain ⟨token, ht⟩ := exists_reaches_of_prefix he hp hpath
    rw [TokenTree.reaches_append h] at ht
    cases ht

/-- A value at the root is the only entry if no path is a strict prefix of another one. -/
theorem hasRootValue_of_prefixFree (h : dict.PrefixFree) : dict.hasRootValue = false := by
  rw [hasRootValue, Bool.and_eq_false_imp]
  intro hsize
  cases hget : dict.get? [] with
  | none => rfl
  | some entry =>
      -- the root is a prefix of all paths, so they are all the root
      have hroot := get?_eq_some_iff.1 hget
      have hpaths : ∀ p ∈ dict.entries.map Prod.fst, p = [] := by
        intro p hp
        obtain ⟨e, he, rfl⟩ := List.mem_map.1 hp
        exact (h _ hroot e he List.nil_prefix).symm
      have hnodup := keys_nodup dict.sorted
      rw [List.eq_replicate_of_mem hpaths, List.nodup_replicate, List.length_map] at hnodup
      exact absurd (of_decide_eq_true hsize) (Nat.not_lt.2 hnodup)

/-- **Which dictionaries of leaves are unflattened.** -/
theorem exists_unflatten_iff (hne : dict.entries ≠ [])
    (hv : ∀ e ∈ dict.entries, e.2.isLeaf = true) :
    (∃ document, dict.unflatten = .ok document) ↔ dict.PrefixFree ∧ dict.UniformLevels := by
  have hm : ∀ below kind, (TokenTree.ofDict dict).entryAt? below ≠ some (.marker kind) := by
    intro below kind h
    rw [TokenTree.entryAt?_ofDict, get?_eq_some_iff] at h
    cases hv _ h
  have hbuild := TokenTree.exists_build_iff (TokenTree.isSorted_ofDict dict) hm []
  rw [isPlain_ofDict_iff hv] at hbuild
  rw [← hbuild]
  constructor
  · rintro ⟨document, h⟩
    exact ⟨document, (unflatten_cases h).resolve_left fun hnil => hne hnil.1⟩
  · intro h
    have hroot := hasRootValue_of_prefixFree (hbuild.1 h).1
    rwa [unflatten, hroot, if_neg Bool.false_ne_true, if_neg (by simpa using hne)]

/-- **What is unflattened from leaves has them as its leaves.** -/
theorem leafAt_unflatten_iff {document : Document} (hne : dict.entries ≠ [])
    (hv : ∀ e ∈ dict.entries, e.2.isLeaf = true) (h : dict.unflatten = .ok document) :
    document.namesDistinct = true ∧ ∀ path value,
      document.nodeAt? path = some value ∧ value.isLeaf = true ↔
        (path, Entry.value value) ∈ dict.entries := by
  have hs := TokenTree.isSorted_ofDict dict
  have hentries : ∀ below entry, (TokenTree.ofDict dict).entryAt? below = some entry →
      entry.isLeaf = true := by
    intro below entry he
    rw [TokenTree.entryAt?_ofDict, get?_eq_some_iff] at he
    exact hv _ he
  have hbuild := (unflatten_cases h).resolve_left fun hnil => hne hnil.1
  refine ⟨TokenTree.namesDistinct_of_build hs hentries hbuild, fun path value => ?_⟩
  rw [TokenTree.leafAt_iff_entryAt? hs hentries (subtree?_ofDict_ne_empty hne) hbuild,
    TokenTree.entryAt?_ofDict, get?_eq_some_iff]

/-- **Flattening gives back the leaves that a document was unflattened from**, if the limits do not
stop it. -/
theorem flatten_of_unflatten {document : Document} (hne : dict.entries ≠ [])
    (hv : ∀ e ∈ dict.entries, e.2.isLeaf = true) (h : dict.unflatten = .ok document)
    {options : FlattenOptions} (ha : options.annotateAll = false)
    (hu : options.Uncapped 0 document) : document.flatten options = dict := by
  obtain ⟨hd, hleaves⟩ := leafAt_unflatten_iff hne hv h
  -- both dictionaries hold the leaves of the document
  refine ext (eq_of_mem_iff_of_sorted Prod.fst (document.flatten options).sorted dict.sorted ?_)
  rintro ⟨path, entry⟩
  cases entry with
  | value value => rw [FlattenOptions.value_mem_flatten_iff hd hu, hleaves]
  | marker kind =>
      refine iff_of_false (fun hm => ?_) (fun hm => nomatch hv _ hm)
      exact FlattenOptions.not_marker_of_mem_flatten hd ha hm

/-- **Which dictionaries of leaves are unflattened, and what flattening makes of the result.** A
dictionary of scalars and empty containers is unflattened exactly if no path is a strict prefix of
another one and the paths go on below every path with names only, or with the positions from zero
on. Flattening the result without markers, with limits that its size does not reach, gives the
dictionary back. -/
theorem unflatten_leaves {dict : PathDict} (hne : dict.entries ≠ [])
    (hv : ∀ e ∈ dict.entries, e.2.isLeaf = true) :
    ((∃ document, dict.unflatten = .ok document) ↔ dict.PrefixFree ∧ dict.UniformLevels) ∧
      ∀ document, dict.unflatten = .ok document →
        ∀ options : FlattenOptions, options.annotateAll = false →
          document.nodeCount ≤ options.maxDepth → document.nodeCount ≤ options.maxLength →
            document.flatten options = dict := by
  refine ⟨exists_unflatten_iff hne hv, fun document h options ha hdepth hlength => ?_⟩
  refine flatten_of_unflatten hne hv h ha (FlattenOptions.uncapped_of_nodeCount_le ?_ hlength)
  rwa [Nat.zero_add]

/-- The leaves of a mapping with a sequence. -/
def listed : PathDict :=
  .ofList [([.key "a", .index 0], .value (.int 1)), ([.key "a", .index 1], .value (.set [])),
    ([.key "0"], .value (.string "x"))]

/-- The leaves make a mapping with a sequence and are listed again. -/
theorem unflatten_leaves_listed :
    let document : Document :=
      .mapping [("0", .string "x"), ("a", .sequence [.int 1, .set []])]
    listed.entries ≠ [] ∧ (∀ e ∈ listed.entries, e.2.isLeaf = true) ∧
      listed.unflatten = .ok document ∧ (listed.PrefixFree ∧ listed.UniformLevels) ∧
      document.flatten ⟨false, 5, 5⟩ = listed := by
  intro document
  have hne : listed.entries ≠ [] := by decide
  have hv : ∀ e ∈ listed.entries, e.2.isLeaf = true := by decide
  have hunflatten : listed.unflatten = .ok document := rfl
  obtain ⟨haccepted, hflatten⟩ := unflatten_leaves hne hv
  exact ⟨hne, hv, hunflatten, haccepted.1 ⟨document, hunflatten⟩,
    hflatten document hunflatten ⟨false, 5, 5⟩ rfl (by decide) (by decide)⟩

end PathDict

end PathDoc
