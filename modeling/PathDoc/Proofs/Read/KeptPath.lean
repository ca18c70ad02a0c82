import PathDoc.Navigator
import PathDoc.Proofs.Document.Addresses

/-!
# Values kept under their path

`Navigator.getKeepPath` reads a value and wraps it in mappings along the path that led to it. What
comes out is a chain of mappings with one entry each around the value (`getKeepPath_eq_ok_iff`),
whatever kinds of containers the path led through. A chain has one link for every token and no other
node but those of the value (`Chain.nodeAt?_eq_some_iff`, `Chain.nodeCount_eq`). A link names its
entry by the text of its token, where a position finds it as well as a name (`child_link`), so the
path leads through the chain to the value (`follow_chain`). `get_getKeepPath` puts this together.
-/

set_option autoImplicit false

namespace PathDoc

/-- The name that stands for a token in a mapping. -/
def Token.named (token : Token) : Token :=
  .key token.text

namespace Document

/-- A chain of mappings around a value, one for every token of a path. The only entry of a mapping
has the text of its token for a name. -/
inductive Chain (value : Document) : Path → Document → Prop where
  /-- At the end of the path stands the value. -/
  | last : Chain value [] value
  /-- A mapping holds what stands behind its token. -/
  | link (token : Token) {rest : Path} {inner : Document} (h : Chain value rest inner) :
      Chain value (token :: rest) (mapping [(token.text, inner)])

/-- A mapping of a chain, with its address: it stands behind some tokens of the path, and its only
entry, for the next token, holds the rest of the chain. -/
def LinkAt (value : Document) (path address : Path) (node : Document) : Prop :=
  ∃ above token below inner, path = above ++ token :: below ∧ address = above.map Token.named ∧
    Chain value below inner ∧ node = mapping [(token.text, inner)]

variable {value node chain : Document} {path address : Path} {token first : Token}

/-- **Wrapping makes a chain, and all chains are made so.** -/
theorem chain_iff : Chain value path chain ↔ wrap path value = chain := by
  constructor
  · intro h
    induction h with
    | last => rfl
    | link token _ ih => rw [← ih, wrap, wrap, List.foldr_cons]
  · rintro rfl
    induction path with
    | nil => exact .last
    | cons token rest ih => exact .link token ih

/-! ## The nodes of a chain -/

theorem not_linkAt_nil : ¬ LinkAt value [] address node := by
  rintro ⟨above, token, below, inner, hpath, -⟩
  exact List.append_ne_nil_of_right_ne_nil above (List.cons_ne_nil token below) hpath.symm

theorem linkAt_cons_nil {rest : Path} :
    LinkAt value (token :: rest) [] node ↔
      ∃ inner, Chain value rest inner ∧ node = mapping [(token.text, inner)] := by
  constructor
  · rintro ⟨above, other, below, inner, hpath, haddress, hinner, rfl⟩
    cases List.map_eq_nil_iff.1 haddress.symm
    cases hpath
    exact ⟨inner, hinner, rfl⟩
  · rintro ⟨inner, hinner, rfl⟩
    exact ⟨[], token, rest, inner, rfl, rfl, hinner, rfl⟩

theorem linkAt_cons_cons {rest : Path} :
    LinkAt value (token :: rest) (first :: address) node ↔
      first = token.named ∧ LinkAt value rest address node := by
  constructor
  · rintro ⟨above, other, below, inner, hpath, haddress, hlink⟩
    cases above with
    | nil => cases haddress
    | cons head above =>
        cases hpath
        cases haddress
        exact ⟨rfl, above, other, below, inner, rfl, rfl, hlink⟩
  · rintro ⟨rfl, above, other, below, inner, rfl, rfl, hlink⟩
    exact ⟨token :: above, other, below, inner, rfl, rfl, hlink⟩

theorem child?_link (inner : Document) :
    (mapping [(token.text, inner)]).child? first =
      if first = token.named then some inner else none :=
  lookup_cons_ite first (token.named, inner) []

/-- **The nodes of a chain** are its links, each with one entry, and the nodes of the value. -/
theorem Chain.nodeAt?_eq_some_iff (h : Chain value path chain) :
    chain.nodeAt? address = some node ↔
      LinkAt value path address node ∨
        ∃ within, address = path.map Token.named ++ within ∧
          value.nodeAt? within = some node := by
  induction h generalizing address with
  | last => simp [not_linkAt_nil]
  | link token hinner ih =>
      cases address with
      | nil =>
          -- the root of the chain is its first link
          rw [linkAt_cons_nil, nodeAt?, Option.some.injEq]
          constructor
          · rintro rfl
            exact .inl ⟨_, hinner, rfl⟩
          · rintro (⟨inner, hother, rfl⟩ | ⟨within, haddress, -⟩)
            · rw [← chain_iff.1 hinner, chain_iff.1 hother]
            · cases haddress
      | cons first address =>
          rw [linkAt_cons_cons, nodeAt?, child?_link]
          by_cases hfirst : first = token.named
          · rw [if_pos hfirst, Option.bind_some, ih]
            simp [hfirst]
          · simp [hfirst]

/-- **A chain has one part for every token and the parts of its value.** -/
theorem Chain.nodeCount_eq (h : Chain value path chain) :
    chain.nodeCount = path.length + value.nodeCount := by
  induction h with
  | last => exact (Nat.zero_add _).symm
  | link token hinner ih =>
      simp only [nodeCount, countEntries, ih, List.length_cons]
      omega

end Document

namespace Navigator

variable {navigator : Navigator} {document value chain : Document} {path : Path}

/-! ## Following a chain -/

/-- A token leads through its link, a position as well as a name. -/
theorem child_link (token : Token) (inner : Document) :
    navigator.child (.mapping [(token.text, inner)]) token =
      .ok (.entry token.text, inner) := by
  have hget : Entries.get? [(token.text, inner)] token.text = some inner := if_pos rfl
  have hcontains : Entries.contains [(token.text, inner)] token.text = true := by
    rw [Entries.contains, hget]
    rfl
  have hlocate : navigator.locate (.mapping [(token.text, inner)]) token =
      .ok (.entry token.text) := by
    cases token with
    | index position => exact if_pos hcontains
    | key name => exact if_pos hcontains
  rw [child, hlocate]
  simp only [Document.at?, hget]

/-- **The path of a chain leads to its value**, with any accessors. -/
theorem follow_chain {tokens : List Token} (h : Document.Chain value tokens chain) :
    navigator.follow path chain tokens = .ok value := by
  induction h with
  | last => rfl
  | link token _ ih =>
      rw [follow, child_link]
      exact ih

/-! ## Reading into a chain -/

/-- **A value is kept under its path if there is one**, in the chain along the path. -/
theorem getKeepPath_eq_ok_iff :
    navigator.getKeepPath document path = .ok chain ↔
      ∃ value, navigator.get document path = .ok value ∧ Document.Chain value path chain := by
  simp only [getKeepPath, map_eq_ok_iff, Document.chain_iff]

/-- **What is kept under a path is read back at the path.** If a path leads to a value, whatever
containers, positions and attributes it leads through, then the value can be kept under the path,
and the path leads to the same value in what is kept, for the same navigator and for any other. What
is kept is the chain of mappings along the path around the value. The nodes in it are the links of
the chain, one for every token and each with a single entry, and the nodes of the value below
them. -/
theorem get_getKeepPath (h : navigator.get document path = .ok value) :
    ∃ kept, navigator.getKeepPath document path = .ok kept ∧
      (∀ reader : Navigator, reader.get kept path = .ok value) ∧
      Document.Chain value path kept ∧
      kept.nodeCount = path.length + value.nodeCount ∧
      ∀ address node, kept.nodeAt? address = some node ↔
        Document.LinkAt value path address node ∨
          ∃ within, address = path.map Token.named ++ within ∧
            value.nodeAt? within = some node := by
  have hchain : Document.Chain value path (Document.wrap path value) := Document.chain_iff.2 rfl
  refine ⟨_, getKeepPath_eq_ok_iff.2 ⟨value, h, hchain⟩, ?_, hchain, hchain.nodeCount_eq, ?_⟩
  · intro reader
    exact follow_chain hchain
  · intro address node
    exact hchain.nodeAt?_eq_some_iff

/-- The last item of the last member of a field of a record. What is kept has names for the field,
the position from the end and the attribute, and no trace of the other fields and members. -/
theorem get_getKeepPath_attributes :
    let letters := Document.sequence [.string "a", .string "b"]
    let document := Document.mapping
      [("p", .record "Point" [("x", .set [.int 1, letters]), ("y", .null)]), ("q", .null)]
    let path : Path := [.key "p", .key "x", .index (-1), .key "last"]
    let kept := Document.mapping
      [("p", .mapping [("x", .mapping [("-1", .mapping [("last", .string "b")])])])]
    standard.get document path = .ok (.string "b") ∧ standard.getKeepPath document path = .ok kept ∧
      standard.get kept path = .ok (.string "b") ∧ kept.nodeCount = 5 := by
  intro letters document path kept
  have hvalue : standard.get document path = .ok (.string "b") := by rfl
  obtain ⟨wrapped, hkept, hread, -, hcount, -⟩ := get_getKeepPath hvalue
  have hwrapped : standard.getKeepPath document path = .ok kept := by rfl
  cases hwrapped.symm.trans hkept
  exact ⟨hvalue, hkept, hread standard, hcount⟩

end Navigator

end PathDoc
