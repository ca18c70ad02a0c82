import PathDoc.Proofs.Flat.Lookup
import PathDoc.Proofs.Flat.RoundTrip
import PathDoc.Proofs.Write.Sequences

/-!
# Reading back what was unflattened

A path that is marked as a mapping turns the positions below it into names, so a position and a key
can get the same name; the value of the key is kept. `PathDict.visible` follows a path and takes, at
every such position, the key in its place. What is built from a dictionary without markers of sets
holds every value at its own path, unless a key shadows a position on the way; then the path leads
where the visible path leads (`get_unflatten`).
-/

set_option autoImplicit false

namespace PathDoc

namespace PathDict

/-- Whether a path is marked as a mapping. -/
def marksMapping (dict : PathDict) (path : Path) : Bool :=
  match dict.get? path with
  | some (.marker .mapping) => true
  | _ => false

/-- Whether there is an entry at a path or below it. -/
def reaches (dict : PathDict) (path : Path) : Bool :=
  dict.entries.any fun entry => Path.startsWith entry.1 path

theorem reaches_iff {dict : PathDict} {path : Path} :
    dict.reaches path = true ↔ ∃ e ∈ dict.entries, path <+: e.1 := by
  simp only [reaches, List.any_eq_true, Path.startsWith, List.isPrefixOf_iff_prefix]

/-- Whether a position below a path gets a name that a key below that path has too. -/
def isShadowed (dict : PathDict) (above : Path) : Token → Bool
  | .index position =>
    dict.marksMapping above && dict.reaches (above ++ [.key (Token.index position).text])
  | .key _ => false

/-- The way of a path that goes on below another one, with keys for the positions they shadow. -/
def visibleBelow (dict : PathDict) (above : Path) : Path → Path
  | [] => []
  | token :: rest =>
    let seen := if dict.isShadowed above token then .key token.text else token
    seen :: dict.visibleBelow (above ++ [seen]) rest

/-- A path with keys for the positions they shadow. -/
def visible (dict : PathDict) (path : Path) : Path :=
  dict.visibleBelow [] path

end PathDict

namespace TokenTree

/-! ## What was built -/

/-- A mapping without a marker of its own has no positions. -/
theorem Marked.isIndex {path : Path} {own : Option Entry} {tokens : List Token}
    (h : Marked path own tokens .mapping) (hown : own ≠ some (.marker .mapping)) {token : Token}
    (ht : token ∈ tokens) : token.isIndex = false := by
  rcases h with h | ⟨-, h⟩
  · exact absurd h hown
  · unfold markerFor at h
    dsimp only at h
    split at h
    · cases h
    · split at h
      · rename_i hall
        simpa using List.all_eq_true.1 hall token ht
      · cases h

/-- A set has a marker of its own. -/
theorem Marked.ne_set {path : Path} {own : Option Entry} {tokens : List Token} {marker : Marker}
    (h : Marked path own tokens marker) (hown : own ≠ some (.marker .set)) : marker ≠ .set := by
  rintro rfl
  rcases h with h | ⟨-, h⟩
  · exact hown h
  · unfold markerFor at h
    dsimp only at h
    split at h
    · cases h
    · split at h <;> cases h

/-- **Keys keep their texts as names, positions do if no key has that text.** -/
theorem get?_ofList_children {values : List (Token × Document)}
    (hs : values.Pairwise fun a b => compare a.1 b.1 = .lt) {token : Token} {value : Document}
    (hv : values.lookup token = some value)
    (hfree : token.isIndex = true → Token.key token.text ∉ values.map Prod.fst) :
    (Entries.ofList (values.map fun child => (child.1.text, child.2))).get? token.text =
      some value := by
  obtain ⟨before, after, rfl, -⟩ := List.lookup_eq_some_iff.1 hv
  rw [List.map_append, List.map_cons]
  apply Entries.get?_ofList_last
  -- the children behind have greater tokens, and a greater token has another text
  rw [Entries.names, List.map_map, List.mem_map]
  rintro ⟨child, hc, htext⟩
  have hlt : compare token child.1 = .lt :=
    (List.pairwise_cons.1 (List.pairwise_append.1 hs).2.1).1 child hc
  have hne := ne_of_compare_lt hlt
  obtain ⟨other, document⟩ := child
  cases token with
  | key name =>
      cases other with
      | index position => cases hlt
      | key other => exact hne (congrArg Token.key htext.symm)
  | index position =>
      cases other with
      | index other =>
          have hdigits := Decimal.intText_inj (String.ofList_injective htext)
          exact hne (congrArg Token.index hdigits.symm)
      | key name =>
          apply hfree rfl
          rw [← show name = (Token.index position).text from htext]
          have hm : (Token.key name, document) ∈ before ++ (Token.index position, value) :: after :=
            List.mem_append_right _ (List.mem_cons_of_mem _ hc)
          exact List.mem_map_of_mem (f := Prod.fst) hm

/-- **The children of an assembled container other than a set are found under their tokens.** -/
theorem child_of_assemble {navigator : Navigator} {path : Path} {values : List (Token × Document)}
    {marker : Marker} {document : Document} (h : assemble path values marker = .ok document)
    (hs : values.Pairwise fun a b => compare a.1 b.1 = .lt) (hset : marker ≠ .set)
    {token : Token} {value : Document} (hv : values.lookup token = some value)
    (hfree : marker = .mapping → token.isIndex = true →
      Token.key token.text ∉ values.map Prod.fst) :
    ∃ slot, navigator.child document token = .ok (slot, value) := by
  rcases assemble_cases h with ⟨rfl, rfl⟩ | ⟨items, rfl, ⟨rfl, rfl⟩ | ⟨rfl, -⟩ |
      ⟨name, fields, rfl, hlength, rfl⟩⟩
  · exact ⟨_, Navigator.child_mapping (get?_ofList_children hs hv (hfree rfl))⟩
  · exact ⟨_, Navigator.child_of_child? hv⟩
  · exact absurd rfl hset
  · refine ⟨_, Navigator.child_of_child? ?_⟩
    rw [Document.child?, Document.children, List.map_snd_zip hlength.le]
    exact hv

theorem isSome_lookup_iff {α : Type} {children : List (Token × α)} {token : Token} :
    (children.lookup token).isSome = true ↔ token ∈ children.map Prod.fst := by
  induction children with
  | nil => simp
  | cons head rest ih =>
      rw [List.lookup_cons, List.map_cons, List.mem_cons, ← ih]
      by_cases h : token = head.1
      · simp [h]
      · simp [h, beq_eq_false_iff_ne.2 h]

theorem tokens_of_built {path : Path} {children : List (Token × TokenTree)}
    {values : List (Token × Document)} (h : List.Forall₂ (Built path) children values) :
    values.map Prod.fst = children.map Prod.fst := by
  induction h with
  | nil => rfl
  | cons hb _ ih => rw [List.map_cons, List.map_cons, ih, hb.1]

/-- The value that is built from the child of a token. -/
theorem lookup_of_built {path : Path} {children : List (Token × TokenTree)}
    {values : List (Token × Document)} (h : List.Forall₂ (Built path) children values)
    {token : Token} {child : TokenTree} (hc : children.lookup token = some child) :
    ∃ value, values.lookup token = some value ∧ child.build (path ++ [token]) = .ok value := by
  induction h with
  | nil => cases hc
  | @cons first value children values hb _ ih =>
      obtain ⟨other, tree⟩ := first
      obtain ⟨name, document⟩ := value
      obtain ⟨rfl, hbuild⟩ := hb
      rw [List.lookup_cons] at hc ⊢
      split at hc
      · rename_i heq
        cases hc
        rw [beq_iff_eq.1 heq]
        exact ⟨document, by simp, hbuild⟩
      · rename_i hne
        rw [hne]
        exact ih hc

/-- What is built from a tree with children: the child of a token is among the values that are
assembled, in the order of their tokens. -/
theorem assembled_of_child {path : Path} {tree child : TokenTree} {document : Document}
    {token : Token} (hs : tree.IsSorted) (h : tree.build path = .ok document)
    (hc : tree.subtree? [token] = some child) :
    ∃ marker values value, assemble path values marker = .ok document ∧
      Marked path tree.own (values.map Prod.fst) marker ∧
      (values.Pairwise fun a b => compare a.1 b.1 = .lt) ∧
      (∀ other, (tree.subtree? [other]).isSome = true ↔ other ∈ values.map Prod.fst) ∧
      values.lookup token = some value ∧ child.build (path ++ [token]) = .ok value := by
  obtain ⟨own, children⟩ := tree
  obtain ⟨horder, -⟩ := hs
  -- what stands below a token is found among the children
  have hlookup : ∀ token, (node own children).subtree? [token] = children.lookup token := by
    intro token
    rw [subtree?_cons]
    cases children.lookup token <;> simp
  rw [hlookup] at hc
  rcases build_cases h with ⟨-, rfl⟩ | ⟨marker, values, hmarked, hbuilt, hassemble⟩
  · cases hc
  · have htokens := tokens_of_built hbuilt
    obtain ⟨value, hvalue, hbuild⟩ := lookup_of_built hbuilt hc
    refine ⟨marker, values, value, hassemble, htokens ▸ hmarked, ?_, fun other => ?_, hvalue, hbuild⟩
    · rw [← List.pairwise_map (f := Prod.fst) (R := fun a b => compare a b = .lt), htokens,
        List.pairwise_map]
      exact horder
    · rw [hlookup, htokens]
      exact isSome_lookup_iff

/-- **A child of a tree is built and found under its token, unless a key shadows a position.** -/
theorem child_of_build (navigator : Navigator) {path : Path} {tree child : TokenTree}
    {document : Document} {token : Token} (hs : tree.IsSorted)
    (h : tree.build path = .ok document) (hset : tree.own ≠ some (.marker .set))
    (hc : tree.subtree? [token] = some child)
    (hfree : tree.own = some (.marker .mapping) → token.isIndex = true →
      tree.subtree? [.key token.text] = none) :
    ∃ slot value, navigator.child document token = .ok (slot, value) ∧
      child.build (path ++ [token]) = .ok value := by
  obtain ⟨marker, values, value, hassemble, hmarked, hsorted, htokens, hvalue, hbuild⟩ :=
    assembled_of_child hs h hc
  have hmem : token ∈ values.map Prod.fst := (htokens token).1 (by rw [hc]; rfl)
  have hkey : marker = .mapping → token.isIndex = true →
      Token.key token.text ∉ values.map Prod.fst := by
    rintro rfl hindex hkey
    -- only a marker of its own makes a mapping out of positions
    by_cases hown : tree.own = some (.marker .mapping)
    · have hsome := (htokens _).2 hkey
      rw [hfree hown hindex] at hsome
      cases hsome
    · rw [hmarked.isIndex hown hmem] at hindex
      cases hindex
  obtain ⟨slot, hchild⟩ := child_of_assemble hassemble hsorted (hmarked.ne_set hset) hvalue hkey
  exact ⟨slot, value, hchild, hbuild⟩

/-- **Where a key shadows a position both lead to what was built from the child of the key.** -/
theorem child_of_shadowed (navigator : Navigator) {path : Path} {tree child : TokenTree}
    {document : Document} {name : String} (hs : tree.IsSorted)
    (h : tree.build path = .ok document) (hown : tree.own = some (.marker .mapping))
    (hc : tree.subtree? [.key name] = some child) :
    ∃ slot value, (∀ token : Token, token.text = name →
        navigator.child document token = .ok (slot, value)) ∧
      child.build (path ++ [.key name]) = .ok value := by
  obtain ⟨marker, values, value, hassemble, hmarked, hsorted, -, hvalue, hbuild⟩ :=
    assembled_of_child hs h hc
  -- the marker of the node itself wins over what its tokens say
  have hmapping : marker = .mapping := by
    rcases hmarked with hmarked | ⟨hnone, -⟩
    · rw [hown] at hmarked
      cases hmarked
      rfl
    · rw [hown] at hnone
      cases hnone
  subst hmapping
  cases hassemble
  refine ⟨.entry name, value, ?_, hbuild⟩
  intro token ht
  -- a name that is there hides a position of the same text
  have hget := get?_ofList_children hsorted hvalue (fun hindex => Bool.noConfusion hindex)
  change Entries.get? _ name = some value at hget
  rw [← ht] at hget ⊢
  exact Navigator.child_mapping hget

/-! ## Following paths through what was built -/

theorem IsSorted.subtree? {tree below : TokenTree} (h : tree.IsSorted) {path : Path}
    (hb : tree.subtree? path = some below) : below.IsSorted := by
  induction path generalizing tree with
  | nil =>
      rw [subtree?_nil] at hb
      cases hb
      exact h
  | cons token path ih =>
      obtain ⟨own, children⟩ := tree
      obtain ⟨-, hbelow⟩ := h
      obtain ⟨child, hc, hb⟩ := Option.bind_eq_some_iff.1 hb
      exact ih (hbelow _ (mem_of_lookup hc)) hb

section

variable {dict : PathDict} {above : Path} {tree : TokenTree}

/-- The entry of a node of the tree of a dictionary. -/
theorem own_of_subtree? (ht : (ofDict dict).subtree? above = some tree) :
    tree.own = dict.get? above := by
  rw [← entryAt?_ofDict, entryAt?, ht]
  rfl

theorem reaches_append (ht : (ofDict dict).subtree? above = some tree) (token : Token) :
    dict.reaches (above ++ [token]) = (tree.subtree? [token]).isSome := by
  have h := subtree?_ofDict dict (show above ++ [token] ≠ [] by simp)
  rw [subtree?_append, ht, Option.bind_some] at h
  rw [Bool.eq_iff_iff, h, PathDict.reaches_iff]

/-- A position is shadowed if its node is marked as a mapping and has a key of the same text. -/
theorem isShadowed_iff (ht : (ofDict dict).subtree? above = some tree) (token : Token) :
    dict.isShadowed above token = true ↔
      token.isIndex = true ∧ tree.own = some (.marker .mapping) ∧
        (tree.subtree? [.key token.text]).isSome = true := by
  cases token with
  | key name =>
      simp [PathDict.isShadowed, Token.isIndex]
  | index position =>
      have hmarks : dict.marksMapping above = true ↔ tree.own = some (.marker .mapping) := by
        rw [own_of_subtree? ht, PathDict.marksMapping]
        split
        · rename_i he
          exact iff_of_true rfl he
        · rename_i hne
          exact iff_of_false Bool.false_ne_true hne
      rw [PathDict.isShadowed, Bool.and_eq_true, hmarks, reaches_append ht]
      simp [Token.isIndex]

/-- A position that is not shadowed has no key of the same text beside it in a mapping. -/
theorem free_of_not_shadowed (ht : (ofDict dict).subtree? above = some tree) {token : Token}
    (h : dict.isShadowed above token = false) (hown : tree.own = some (.marker .mapping))
    (hindex : token.isIndex = true) : tree.subtree? [.key token.text] = none := by
  rw [← Option.not_isSome_iff_eq_none]
  intro hkey
  rw [(isShadowed_iff ht token).2 ⟨hindex, hown, hkey⟩] at h
  cases h

/-- Where the dictionary has no entries nothing is shadowed. -/
theorem visibleBelow_of_none (h : (ofDict dict).subtree? above = none) (path : Path) :
    dict.visibleBelow above path = path := by
  induction path generalizing above with
  | nil => rfl
  | cons token path ih =>
      have hget : dict.get? above = none := by
        rw [← entryAt?_ofDict, entryAt?, h]
        rfl
      have hshadow : dict.isShadowed above token = false := by
        cases token with
        | key name => rfl
        | index position => simp [PathDict.isShadowed, PathDict.marksMapping, hget]
      have hbelow : (ofDict dict).subtree? (above ++ [token]) = none := by
        rw [subtree?_append, h]
        rfl
      rw [PathDict.visibleBelow, hshadow, if_neg Bool.false_ne_true, ih hbelow]

variable {navigator : Navigator} {document : Document}

/-- **A path leads where its visible path leads.** -/
theorem follow_visibleBelow (hset : ∀ path, dict.get? path ≠ some (.marker .set))
    (ht : (ofDict dict).subtree? above = some tree) (h : tree.build above = .ok document)
    (source path : Path) :
    navigator.follow source document path =
      navigator.follow source document (dict.visibleBelow above path) := by
  -- induction on the path, with the node of the tree that the document was built from
  induction path generalizing above tree document with
  | nil => rfl
  | cons token path ih =>
      have hsorted := (isSorted_ofDict dict).subtree? ht
      have hown : tree.own ≠ some (.marker .set) := own_of_subtree? ht ▸ hset above
      have hstep : ∀ {token child}, tree.subtree? [token] = some child →
          (ofDict dict).subtree? (above ++ [token]) = some child := by
        intro token child hc
        rw [subtree?_append, ht]
        exact hc
      rw [PathDict.visibleBelow]
      cases hshadow : dict.isShadowed above token with
      | true =>
          obtain ⟨-, hmapping, hkey⟩ := (isShadowed_iff ht token).1 hshadow
          obtain ⟨child, hc⟩ := Option.isSome_iff_exists.1 hkey
          obtain ⟨slot, value, hchild, hbuild⟩ :=
            child_of_shadowed navigator hsorted h hmapping hc
          rw [if_pos rfl, Navigator.follow_cons_of_child (hchild token rfl),
            Navigator.follow_cons_of_child (hchild (.key token.text) rfl)]
          exact ih (hstep hc) hbuild
      | false =>
          rw [if_neg Bool.false_ne_true]
          cases hc : tree.subtree? [token] with
          | none =>
              -- below a token that the dictionary does not have the path stays as it is
              have hnone : (ofDict dict).subtree? (above ++ [token]) = none := by
                rw [subtree?_append, ht]
                exact hc
              rw [visibleBelow_of_none hnone]
          | some child =>
              obtain ⟨slot, value, hchild, hbuild⟩ :=
                child_of_build navigator hsorted h hown hc (free_of_not_shadowed ht hshadow)
              rw [Navigator.follow_cons_of_child hchild, Navigator.follow_cons_of_child hchild]
              exact ih (hstep hc) hbuild

/-- **An entry with a value is found at its path if nothing shadows it.** -/
theorem follow_of_visible (hset : ∀ path, dict.get? path ≠ some (.marker .set))
    (ht : (ofDict dict).subtree? above = some tree) (h : tree.build above = .ok document)
    (source : Path) {path : Path} {value : Document}
    (hv : tree.entryAt? path = some (.value value)) (hp : dict.visibleBelow above path = path) :
    navigator.follow source document path = .ok value := by
  induction path generalizing above tree document with
  | nil =>
      obtain ⟨own, children⟩ := tree
      have hown : own = some (.value value) := hv
      rcases build_cases h with ⟨hdocument, -⟩ | ⟨marker, values, hmarked, -⟩
      · rw [hown] at hdocument
        cases hdocument
        rfl
      · rcases hmarked with hmarked | ⟨hmarked, -⟩ <;> rw [hown] at hmarked <;> cases hmarked
  | cons token path ih =>
      have hsorted := (isSorted_ofDict dict).subtree? ht
      have hown : tree.own ≠ some (.marker .set) := own_of_subtree? ht ▸ hset above
      rw [PathDict.visibleBelow] at hp
      obtain ⟨htoken, hrest⟩ := List.cons.inj hp
      have hshadow : dict.isShadowed above token = false := by
        rw [← Bool.not_eq_true]
        intro hshadow
        rw [if_pos hshadow] at htoken
        rw [← htoken] at hshadow
        exact Bool.noConfusion hshadow
      rw [htoken] at hrest
      -- the entry lies below the child of its first token
      obtain ⟨below, hbelow, hvalue⟩ := Option.bind_eq_some_iff.1 hv
      have hsplit : tree.subtree? (token :: path) =
          (tree.subtree? [token]).bind fun child => child.subtree? path := subtree?_cons_bind tree token path
      rw [hsplit] at hbelow
      obtain ⟨child, hc, hbelow⟩ := Option.bind_eq_some_iff.1 hbelow
      obtain ⟨slot, built, hchild, hbuild⟩ :=
        child_of_build navigator hsorted h hown hc (free_of_not_shadowed ht hshadow)
      have hstep : (ofDict dict).subtree? (above ++ [token]) = some child := by
        rw [subtree?_append, ht]
        exact hc
      have hentry : child.entryAt? path = some (.value value) := by
        rw [entryAt?, hbelow]
        exact hvalue
      rw [Navigator.follow_cons_of_child hchild]
      exact ih hstep hbuild hentry hrest

end

end TokenTree

namespace PathDict

theorem visible_visible (dict : PathDict) (path : Path) :
    dict.visible (dict.visible path) = dict.visible path := by
  suffices ∀ above, dict.visibleBelow above (dict.visibleBelow above path) =
      dict.visibleBelow above path from this []
  induction path with
  | nil => exact fun _ => rfl
  | cons token path ih =>
      intro above
      have hseen : dict.isShadowed above
          (if dict.isShadowed above token then .key token.text else token) = false := by
        split
        · rfl
        · rename_i hs
          exact Bool.not_eq_true _ ▸ hs
      simp only [visibleBelow, hseen]
      rw [if_neg Bool.false_ne_true, ih]

/-- **What an unflattened dictionary gives back.** In a document that was unflattened from a
dictionary without markers of sets, an entry with a value is found at its own path if no key shadows
a position on that path. In any case its path leads where its visible path leads, so a shadowed
entry reads as the entry that shadows it. -/
theorem get_unflatten {dict : PathDict} {document : Document}
    (hset : ∀ path, dict.get? path ≠ some (.marker .set)) (h : dict.unflatten = .ok document)
    (navigator : Navigator) {path : Path} {value : Document}
    (hv : dict.get? path = some (.value value)) :
    (dict.visible path = path → navigator.get document path = .ok value) ∧
      (∀ found, navigator.get document path = .ok found ↔
        navigator.get document (dict.visible path) = .ok found) ∧
      (∀ other, dict.get? (dict.visible path) = some (.value other) →
        navigator.get document path = .ok other) := by
  have htree : (TokenTree.ofDict dict).build [] = .ok document := by
    rcases unflatten_cases h with ⟨hnil, -⟩ | htree
    · rw [get?, hnil] at hv
      cases hv
    · exact htree
  have hroot : (TokenTree.ofDict dict).subtree? [] = some (TokenTree.ofDict dict) :=
    TokenTree.subtree?_nil _
  have hfound : ∀ {path value}, dict.get? path = some (.value value) → dict.visible path = path →
      navigator.get document path = .ok value := by
    intro path value hv hp
    rw [← TokenTree.entryAt?_ofDict] at hv
    exact TokenTree.follow_of_visible hset hroot htree path hv hp
  have hsame : ∀ found, navigator.get document path = .ok found ↔
      navigator.get document (dict.visible path) = .ok found := by
    intro found
    rw [Navigator.get, Navigator.get, TokenTree.follow_visibleBelow hset hroot htree path path]
    -- the path that was asked for matters to the text of an error only
    exact ⟨Navigator.follow_path, Navigator.follow_path⟩
  exact ⟨hfound hv, hsame, fun other ho =>
    (hsame other).2 (hfound ho (dict.visible_visible path))⟩

/-- A mapping with a position and a key of one text. -/
def crowded : PathDict :=
  .ofList [([.key "a"], .marker .mapping), ([.key "a", .index 0], .value (.int 1)),
    ([.key "a", .key "0"], .value (.int 2)), ([.key "a", .index 1], .value (.int 3))]

theorem crowded_get?_ne_set (path : Path) : crowded.get? path ≠ some (.marker .set) := by
  have hentries : crowded.entries = [([.key "a"], .marker .mapping),
      ([.key "a", .index 0], .value (.int 1)), ([.key "a", .index 1], .value (.int 3)),
      ([.key "a", .key "0"], .value (.int 2))] := rfl
  intro h
  have hm := mem_of_lookup h
  rw [hentries] at hm
  simp at hm

/-- The value at the position is lost, the one beside it is not. -/
theorem get_unflatten_crowded :
    let document : Document := .mapping [("a", .mapping [("0", .int 2), ("1", .int 3)])]
    (∀ path, crowded.get? path ≠ some (.marker .set)) ∧ crowded.unflatten = .ok document ∧
      crowded.get? [.key "a", .index 1] = some (.value (.int 3)) ∧
      ((crowded.visible [.key "a", .index 1] = [.key "a", .index 1] →
          Navigator.standard.get document [.key "a", .index 1] = .ok (.int 3)) ∧
        (∀ found, Navigator.standard.get document [.key "a", .index 1] = .ok found ↔
          Navigator.standard.get document (crowded.visible [.key "a", .index 1]) = .ok found) ∧
        ∀ other, crowded.get? (crowded.visible [.key "a", .index 1]) = some (.value other) →
          Navigator.standard.get document [.key "a", .index 1] = .ok other) := by
  intro document
  exact ⟨crowded_get?_ne_set, rfl, rfl, get_unflatten crowded_get?_ne_set rfl .standard rfl⟩

/-- A key takes the name of a position, and the value at the position is lost. -/
theorem not_get_unflatten_position :
    (∀ path, crowded.get? path ≠ some (.marker .set)) ∧
      ∃ document, crowded.unflatten = .ok document ∧
        crowded.get? [.key "a", .index 0] = some (.value (.int 1)) ∧
        Navigator.standard.get document [.key "a", .index 0] = .ok (.int 2) :=
  ⟨crowded_get?_ne_set, _, rfl, rfl, rfl⟩

end PathDict

end PathDoc
