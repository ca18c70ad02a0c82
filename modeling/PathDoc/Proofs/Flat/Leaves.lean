import PathDoc.Proofs.Document.Addresses
import PathDoc.Proofs.Flat.Contents
import PathDoc.Proofs.Flat.Encoding

/-!
# Dictionaries of leaves

A leaf is a document without parts. Flattening within its limits lists the leaves of a document as
values, each at its address, and no other values (`value_mem_contents_iff`). No leaf looks like a
marker, so a dictionary whose values are leaves is read back from its encoding, whatever its paths
and markers are (`ofDocument_toDocument_leaves`).
-/

set_option autoImplicit false

namespace PathDoc

namespace Document

/-- Whether a document has no parts: a scalar or an empty container. -/
def isLeaf (document : Document) : Bool :=
  !document.isContainer || document.isEmpty

theorem isLeaf_iff {document : Document} : document.isLeaf = true ↔ document.children = [] := by
  have hpositions : ∀ items, positions 0 items = [] ↔ items = [] := by
    intro items
    cases items <;> simp [positions]
  cases document <;> simp [isLeaf, isContainer, isEmpty, length?, children, hpositions]

theorem child?_of_isLeaf {document : Document} (h : document.isLeaf = true) (token : Token) :
    document.child? token = none := by
  rw [child?, isLeaf_iff.1 h]
  rfl

theorem entries_eq_nil_of_isLeaf {entries : List (String × Document)}
    (h : (mapping entries).isLeaf = true) : entries = [] :=
  List.map_eq_nil_iff.1 (isLeaf_iff.1 h)

theorem namesDistinct_of_isLeaf {document : Document} (h : document.isLeaf = true) :
    document.namesDistinct = true := by
  refine everywhere_iff.2 ⟨?_, by simp [parts, isLeaf_iff.1 h]⟩
  cases document with
  | mapping entries =>
      rw [entries_eq_nil_of_isLeaf h]
      rfl
  | _ => rfl

theorem length?_lt_nodeCount {document : Document} {length : Nat}
    (h : document.length? = some length) : length < document.nodeCount := by
  have hitems : ∀ items : List Document, items.length ≤ countItems items := by
    intro items
    induction items with
    | nil => exact Nat.le_refl _
    | cons item rest ih =>
        have hitem := nodeCount_children item
        rw [List.length_cons, countItems]
        omega
  have hparts := hitems document.parts
  rw [parts, List.length_map, length_children h] at hparts
  have hcount := nodeCount_children document
  omega

/-- Every token of an address leads to a node with fewer parts. -/
theorem length_add_nodeCount_le {document node : Document} {path : Path}
    (h : document.nodeAt? path = some node) :
    path.length + node.nodeCount ≤ document.nodeCount := by
  induction path generalizing document with
  | nil =>
      cases h
      exact Nat.le_of_eq (Nat.zero_add _)
  | cons token rest ih =>
      rw [nodeAt?] at h
      obtain ⟨child, hc, h⟩ := Option.bind_eq_some_iff.1 h
      have hlt : child.nodeCount < document.nodeCount :=
        nodeCount_lt_of_mem_children (mem_children_of_child? hc)
      have hle := ih h
      rw [List.length_cons]
      omega

/-- No leaf is taken for the encoding of a marker. -/
theorem encodesMarker_of_isLeaf {document : Document} (h : document.isLeaf = true) :
    document.encodesMarker = false := by
  cases document with
  | mapping entries =>
      rw [entries_eq_nil_of_isLeaf h]
      rfl
  | _ => rfl

end Document

namespace Entry

/-- Whether an entry is a value that is a leaf. -/
def isLeaf : Entry → Bool
  | value document => document.isLeaf
  | marker _ => false

/-- Whether an entry is a marker. -/
def isMarker : Entry → Bool
  | value _ => false
  | marker _ => true

theorem isLookalike_eq_false {entry : Entry} (h : entry.isLeaf = true ∨ entry.isMarker = true) :
    entry.isLookalike = false := by
  cases entry with
  | value document => exact Document.encodesMarker_of_isLeaf (h.resolve_right Bool.false_ne_true)
  | marker kind => rfl

end Entry

/-! ## Flattening within the limits -/

namespace FlattenOptions

/-- The limits do not stop flattening anywhere in a node at a depth: all that is not a leaf is
expanded. -/
def Uncapped (options : FlattenOptions) (depth : Nat) (node : Document) : Prop :=
  ∀ path part, node.nodeAt? path = some part →
    part.isLeaf = true ∨ options.traversal.expands part (depth + path.length) = true

variable {options : FlattenOptions} {depth : Nat} {node : Document}

theorem listsWhole_of_isLeaf (h : node.isLeaf = true) : options.listsWhole depth node = true := by
  cases node with
  | scalar value => rfl
  | _ =>
      have hempty : Document.isEmpty _ = true := h
      rw [listsWhole, hempty, Bool.true_or]

theorem Uncapped.listsWhole_iff (hu : options.Uncapped depth node) :
    options.listsWhole depth node = true ↔ node.isLeaf = true := by
  refine ⟨fun h => ?_, listsWhole_of_isLeaf⟩
  rcases hu [] node rfl with hleaf | hexpands
  · exact hleaf
  · have hexpands : options.traversal.expands node depth = true := hexpands
    rw [listsWhole, hexpands, Bool.not_true, Bool.or_false] at h
    rw [Document.isLeaf, h, Bool.or_true]

theorem Uncapped.child (hd : node.namesDistinct = true) (hu : options.Uncapped depth node)
    {child : Token × Document} (hc : child ∈ node.children) :
    options.Uncapped (depth + 1) child.2 := by
  intro path part hpart
  have hat : node.nodeAt? (child.1 :: path) = some part := by
    rw [Document.nodeAt?, Document.child?_of_mem_children (Document.children_tokens_nodup hd) hc]
    exact hpart
  have h := hu (child.1 :: path) part hat
  rwa [List.length_cons, Nat.add_comm path.length, ← Nat.add_assoc] at h

/-- Limits as large as the number of parts stop nothing. -/
theorem uncapped_of_nodeCount_le (hdepth : depth + node.nodeCount ≤ options.maxDepth)
    (hlength : node.nodeCount ≤ options.maxLength) : options.Uncapped depth node := by
  intro path part hpart
  have hcount := Document.length_add_nodeCount_le hpart
  cases hl : part.length? with
  | none =>
      left
      cases part with
      | scalar value => rfl
      | _ => cases hl
  | some length =>
      right
      have hparts := Document.length?_lt_nodeCount hl
      have hin : depth + path.length < options.maxDepth := by omega
      have hfew : length ≤ options.maxLength := by omega
      simp [Traversal.expands, hl, traversal, hin, hfew]

/-- The values that flattening lists for an expanded node are those below its children. -/
theorem value_mem_contents_of_expanded {path rest : Path} {value : Document}
    (h : options.listsWhole path.length node = false) :
    (rest, Entry.value value) ∈ options.contents path node ↔
      ∃ token child below, rest = token :: below ∧ (token, child) ∈ node.children ∧
        (below, Entry.value value) ∈ options.contents (path ++ [token]) child := by
  rw [contents_of_expanded h, List.mem_append, mem_ungroup_groups_iff]
  refine or_iff_right fun hself => ?_
  -- the entry of the node itself is a marker
  obtain ⟨entry, hentry, he⟩ := List.mem_map.1 hself
  cases he
  have hwhole := (entry?_eq_value_iff.1 (Option.mem_toList.1 hentry)).1
  rw [h] at hwhole
  cases hwhole

/-- **Within the limits the values that flattening lists are the leaves, at their addresses.** -/
theorem value_mem_contents_iff {path rest : Path} {value : Document}
    (hd : node.namesDistinct = true) (hu : options.Uncapped path.length node) :
    (rest, Entry.value value) ∈ options.contents path node ↔
      node.nodeAt? rest = some value ∧ value.isLeaf = true := by
  induction hn : node.nodeCount using Nat.strongRecOn generalizing path rest node with
  | _ n ih =>
    subst hn
    cases h : options.listsWhole path.length node with
    | true =>
        -- a node that is listed whole is a leaf, with no addresses below it
        have hleaf := hu.listsWhole_iff.1 h
        rw [contents_of_whole h, List.mem_singleton, Prod.mk.injEq, Entry.value.injEq]
        cases rest with
        | nil =>
            rw [Document.nodeAt?, Option.some.injEq]
            exact ⟨fun he => ⟨he.2.symm, he.2 ▸ hleaf⟩, fun he => ⟨rfl, he.1.symm⟩⟩
        | cons token rest =>
            rw [Document.nodeAt?, Document.child?_of_isLeaf hleaf]
            simp
    | false =>
        have hchild : ∀ {token child below}, (token, child) ∈ node.children →
            ((below, Entry.value value) ∈ options.contents (path ++ [token]) child ↔
              child.nodeAt? below = some value ∧ value.isLeaf = true) := fun hc =>
          ih _ (Document.nodeCount_lt_of_mem_children hc) (Document.everywhere_of_mem_children hd hc)
            (by simpa using hu.child hd hc) rfl
        rw [value_mem_contents_of_expanded h]
        cases rest with
        | nil =>
            -- the node itself is no leaf
            refine iff_of_false ?_ ?_
            · rintro ⟨token, child, below, he, -⟩
              cases he
            · rintro ⟨he, hleaf⟩
              cases he
              rw [hu.listsWhole_iff.2 hleaf] at h
              cases h
        | cons token below =>
            rw [Document.nodeAt?]
            constructor
            · rintro ⟨token, child, below, he, hc, hb⟩
              cases he
              rw [Document.child?_of_mem_children (Document.children_tokens_nodup hd) hc]
              exact (hchild hc).1 hb
            · rintro ⟨hat, hleaf⟩
              obtain ⟨child, hc, hat⟩ := Option.bind_eq_some_iff.1 hat
              have hm := Document.mem_children_of_child? hc
              exact ⟨token, child, below, rfl, hm, (hchild hm).2 ⟨hat, hleaf⟩⟩

variable {document : Document}

/-- **Within the limits a flattened document holds its leaves as values, and no others.** -/
theorem value_mem_flatten_iff (hd : document.namesDistinct = true)
    (hu : options.Uncapped 0 document) {path : Path} {value : Document} :
    (path, Entry.value value) ∈ (document.flatten options).entries ↔
      document.nodeAt? path = some value ∧ value.isLeaf = true := by
  rw [(flatten_perm options hd).mem_iff]
  exact value_mem_contents_iff hd hu

/-- Nothing is marked unless markers are asked for. -/
theorem not_marker_of_mem_flatten (hd : document.namesDistinct = true)
    (ha : options.annotateAll = false) {path : Path} {kind : Marker} :
    (path, Entry.marker kind) ∉ (document.flatten options).entries := by
  rw [(flatten_perm options hd).mem_iff]
  intro he
  obtain ⟨v, -, hv⟩ := List.mem_filterMap.1 he
  obtain ⟨entry, hentry, hpair⟩ := Option.map_eq_some_iff.1 hv
  cases hpair
  have hannotate := (entry?_eq_marker_iff.1 hentry).2.1
  rw [ha] at hannotate
  cases hannotate

/-- Within the limits flattening lists leaves and markers. -/
theorem isLeaf_or_isMarker_of_mem_flatten (hd : document.namesDistinct = true)
    (hu : options.Uncapped 0 document) {e : Path × Entry}
    (he : e ∈ (document.flatten options).entries) : e.2.isLeaf = true ∨ e.2.isMarker = true := by
  obtain ⟨path, entry⟩ := e
  cases entry with
  | value value => exact Or.inl ((value_mem_flatten_iff hd hu).1 he).2
  | marker kind => exact Or.inr rfl

end FlattenOptions

/-! ## Encoding -/

namespace PathDict

/-- **A dictionary of leaves and markers is read back from its encoding.** The encoding has one
entry for each entry of the dictionary, all under different names, and each is decoded as itself. -/
theorem ofDocument_toDocument_leaves {dict : PathDict}
    (hr : ∀ e ∈ dict.entries, e.1.inRange = true)
    (hv : ∀ e ∈ dict.entries, e.2.isLeaf = true ∨ e.2.isMarker = true) :
    ofDocument dict.toDocument = .ok dict ∧
      dict.toDocument = .mapping (dict.entries.map fun e => (e.1.text, e.2.encode)) ∧
      (dict.entries.map fun e => e.1.text).Nodup ∧
      ∀ e ∈ dict.entries, Path.parse e.1.text = .ok e.1 ∧
        Entry.decode e.1.text e.2.encode = .ok e.2 := by
  have hl : ∀ e ∈ dict.entries, e.2.isLookalike = false :=
    fun e he => Entry.isLookalike_eq_false (hv e he)
  exact ⟨ofDocument_toDocument hr hl, toDocument_eq hr, texts_nodup hr,
    fun e he => ⟨Path.parse_canonical (hr e he), Entry.decode_encode (hl e he) e.1.text⟩⟩

/-- Keys of every sort, an empty container, and a record whose name and fields are called like the
entries of its encoding. -/
def labelled : PathDict :=
  .ofList [([], .marker .mapping), ([.key "$marker"], .value (.mapping [])),
    ([.key "0"], .value .null), ([.index (-1)], .value (.string "set")),
    ([.key "a.b", .key ""], .marker (.record "$marker" ["fields", "name", "name"]))]

/-- The record is read back with its name and its fields. -/
theorem ofDocument_toDocument_labelled :
    (∀ e ∈ labelled.entries, e.1.inRange = true) ∧
      (∀ e ∈ labelled.entries, e.2.isLeaf = true ∨ e.2.isMarker = true) ∧
      ofDocument labelled.toDocument = .ok labelled ∧
      labelled.toDocument = .mapping (labelled.entries.map fun e => (e.1.text, e.2.encode)) ∧
      (labelled.entries.map fun e => e.1.text).Nodup ∧
      ∀ e ∈ labelled.entries, Path.parse e.1.text = .ok e.1 ∧
        Entry.decode e.1.text e.2.encode = .ok e.2 := by
  have hr : ∀ e ∈ labelled.entries, e.1.inRange = true := by decide
  have hv : ∀ e ∈ labelled.entries, e.2.isLeaf = true ∨ e.2.isMarker = true := by decide
  exact ⟨hr, hv, ofDocument_toDocument_leaves hr hv⟩

end PathDict

end PathDoc
