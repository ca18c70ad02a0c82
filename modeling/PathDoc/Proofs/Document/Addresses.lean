import Mathlib.Data.List.Nodup
import PathDoc.Flat.Marker
import PathDoc.Pairs
import PathDoc.Proofs.Document.Nodes

/-!
# Canonical addresses

The children of a node carry tokens: names in a mapping, positions from the start elsewhere. A path
of such tokens is a canonical address, and `Document.nodeAt?` gives the node at it. The outline of a
container is what is left of it without its children: its marker and the tokens.
-/

set_option autoImplicit false

namespace PathDoc

/-! ## Pairs and paths -/

/-- Among different keys every pair is found under its key. -/
theorem lookup_of_mem {κ α : Type} [BEq κ] [LawfulBEq κ] {pairs : List (κ × α)} {key : κ}
    {value : α} (hn : (pairs.map Prod.fst).Nodup) (h : (key, value) ∈ pairs) :
    pairs.lookup key = some value := by
  have hsome : (pairs.lookup key).isSome = true :=
    List.lookup_isSome_iff.2 ⟨(key, value), h, BEq.rfl⟩
  obtain ⟨other, ho⟩ := Option.isSome_iff_exists.1 hsome
  cases List.inj_on_of_nodup_map hn (mem_of_lookup ho) h rfl
  exact ho

/-- A strict prefix of a path lies above one of its tokens. -/
theorem exists_token_of_prefix {above path : Path} (h : above <+: path) (hne : above ≠ path) :
    ∃ token, above ++ [token] <+: path := by
  obtain ⟨rest, rfl⟩ := h
  cases rest with
  | nil => exact absurd (List.append_nil above).symm hne
  | cons token rest =>
      refine ⟨token, rest, ?_⟩
      rw [List.append_assoc, List.singleton_append]

/-- The position from the start that a token stands for. -/
def Token.position? : Token → Option Nat
  | .index (.ofNat i) => some i
  | _ => none

namespace Document

/-- The tokens of the children of a node, in order. -/
def tokens (node : Document) : List Token :=
  node.children.map Prod.fst

/-- The child with a token. -/
def child? (node : Document) (token : Token) : Option Document :=
  node.children.lookup token

/-- The node at a canonical address. -/
def nodeAt? : Document → Path → Option Document
  | node, [] => some node
  | node, token :: rest => (node.child? token).bind fun child => child.nodeAt? rest

/-- What is left of a container without its children: its marker and the tokens of the children. -/
def outline (node : Document) : Option Marker × List Token :=
  (Marker.ofDocument? node, node.tokens)

/-! ## Children by token -/

theorem lookup_positions (start : Nat) (items : List Document) (token : Token) :
    (positions start items).lookup token =
      token.position?.bind fun i => if start ≤ i then items[i - start]? else none := by
  induction items generalizing start with
  | nil => cases token.position? <;> simp [positions]
  | cons item rest ih =>
      rw [positions, lookup_cons_ite, ih]
      rcases token with (i | i) | name
      -- before the start is none, the start is the first item, later ones are in the rest
      · rcases Nat.lt_trichotomy i start with hlt | rfl | hgt
        · have hne : ¬ (i : Int) = start := by omega
          have hstart : ¬ start ≤ i := by omega
          have hnext : ¬ start + 1 ≤ i := by omega
          have htoken : ¬ Token.index (Int.ofNat i) = .index start := by simpa using hne
          rw [if_neg htoken, Token.position?, Option.bind_some, Option.bind_some, if_neg hstart,
            if_neg hnext]
        · simp [Token.position?]
        · have hne : ¬ (i : Int) = start := by omega
          have hstart : start ≤ i := by omega
          have hnext : start + 1 ≤ i := by omega
          have hsub : i - start = i - (start + 1) + 1 := by omega
          have htoken : ¬ Token.index (Int.ofNat i) = .index start := by simpa using hne
          rw [if_neg htoken, Token.position?, Option.bind_some, Option.bind_some, if_pos hstart,
            if_pos hnext, hsub, List.getElem?_cons_succ]
      · simp [Token.position?]
      · simp [Token.position?]

/-- The item at a position. -/
theorem lookup_positions_zero (items : List Document) (token : Token) :
    (positions 0 items).lookup token = token.position?.bind (items[·]?) := by
  rw [lookup_positions]
  simp

@[simp] theorem child?_scalar (value : Scalar) (token : Token) :
    (scalar value).child? token = none := rfl

@[simp] theorem child?_mapping_key (entries : List (String × Document)) (name : String) :
    (mapping entries).child? (.key name) = Entries.get? entries name := by
  rw [child?, children]
  induction entries with
  | nil => rfl
  | cons entry rest ih =>
      obtain ⟨k, value⟩ := entry
      rw [List.map_cons, lookup_cons_ite, ih, Entries.get?]
      by_cases hk : k = name
      · simp [hk]
      · have hne : ¬ name = k := fun h => hk h.symm
        simp [hk, hne]

@[simp] theorem child?_mapping_index (entries : List (String × Document)) (position : Int) :
    (mapping entries).child? (.index position) = none := by
  rw [child?, children]
  induction entries with
  | nil => rfl
  | cons entry rest ih => rw [List.map_cons, lookup_cons_ite, if_neg Token.noConfusion, ih]

@[simp] theorem child?_sequence (items : List Document) (token : Token) :
    (sequence items).child? token = token.position?.bind (items[·]?) :=
  lookup_positions_zero items token

@[simp] theorem child?_set (members : List Document) (token : Token) :
    (set members).child? token = token.position?.bind (members[·]?) :=
  lookup_positions_zero members token

@[simp] theorem child?_record (name : String) (fields : List (String × Document)) (token : Token) :
    (record name fields).child? token = token.position?.bind ((fields.map Prod.snd)[·]?) :=
  lookup_positions_zero _ token

/-- A node has a child with a token if the token is one of its own. -/
theorem exists_child?_iff {node : Document} {token : Token} :
    (∃ child, node.child? token = some child) ↔ token ∈ node.tokens := by
  rw [← Option.isSome_iff_exists, child?, tokens, List.lookup_isSome_iff, List.mem_map]
  simp only [beq_iff_eq]
  exact exists_congr fun child => and_congr_right fun _ => eq_comm

theorem mem_children_of_child? {node child : Document} {token : Token}
    (h : node.child? token = some child) : (token, child) ∈ node.children :=
  mem_of_lookup h

/-- **Among distinct tokens a child is the one with its token.** -/
theorem child?_of_mem_children {node child : Document} {token : Token} (hn : node.tokens.Nodup)
    (h : (token, child) ∈ node.children) : node.child? token = some child :=
  lookup_of_mem hn h

/-! ## Longer addresses -/

theorem nodeAt?_append (node : Document) (above path : Path) :
    node.nodeAt? (above ++ path) = (node.nodeAt? above).bind fun inner => inner.nodeAt? path := by
  induction above generalizing node with
  | nil => rfl
  | cons token rest ih =>
      rw [List.cons_append, nodeAt?, nodeAt?]
      cases node.child? token with
      | none => rfl
      | some child => exact ih child

/-- What holds everywhere in a document holds everywhere at a canonical address. -/
theorem everywhere_of_nodeAt? {condition : Document → Bool} {document node : Document} {path : Path}
    (h : document.everywhere condition = true) (hn : document.nodeAt? path = some node) :
    node.everywhere condition = true := by
  induction path generalizing document with
  | nil =>
      cases hn
      exact h
  | cons token rest ih =>
      rw [nodeAt?] at hn
      obtain ⟨child, hc, hn⟩ := Option.bind_eq_some_iff.1 hn
      exact ih (everywhere_of_mem_children h (mem_children_of_child? hc)) hn

/-! ## Outlines -/

theorem tokens_mapping (entries : List (String × Document)) :
    (mapping entries).tokens = (Entries.names entries).map Token.key := by
  rw [tokens, children, Entries.names, List.map_map, List.map_map]
  rfl

/-- As many items have the same positions. -/
theorem positions_tokens_inj {as bs : List Document} :
    (positions 0 as).map Prod.fst = (positions 0 bs).map Prod.fst ↔ as.length = bs.length := by
  constructor
  · intro h
    have hl := congrArg List.length h
    rw [positions_tokens, positions_tokens] at hl
    simpa using hl
  · intro h
    rw [positions_tokens, positions_tokens, h]

@[simp] theorem outline_mapping_iff (as bs : List (String × Document)) :
    (mapping as).outline = (mapping bs).outline ↔ Entries.names as = Entries.names bs := by
  rw [outline, outline, tokens_mapping, tokens_mapping, Prod.mk.injEq]
  simp [Marker.ofDocument?, List.map_inj_right]

@[simp] theorem outline_sequence_iff (as bs : List Document) :
    (sequence as).outline = (sequence bs).outline ↔ as.length = bs.length := by
  rw [outline, outline, Prod.mk.injEq, tokens, tokens, children, children, positions_tokens_inj]
  simp [Marker.ofDocument?]

@[simp] theorem outline_set_iff (as bs : List Document) :
    (set as).outline = (set bs).outline ↔ as.length = bs.length := by
  rw [outline, outline, Prod.mk.injEq, tokens, tokens, children, children, positions_tokens_inj]
  simp [Marker.ofDocument?]

@[simp] theorem outline_record_iff (m n : String) (as bs : List (String × Document)) :
    (record m as).outline = (record n bs).outline ↔
      m = n ∧ as.map Prod.fst = bs.map Prod.fst := by
  rw [outline, outline, Prod.mk.injEq, tokens, tokens, children, children, positions_tokens_inj]
  simp only [Marker.ofDocument?, Option.some.injEq, Marker.record.injEq, List.length_map]
  apply and_iff_left_of_imp
  intro h
  simpa using congrArg List.length h.2

/-- **Two nodes with one outline are of one kind and have as many children under the same
names.** -/
theorem outline_cases {a b : Document} (h : a.outline = b.outline) :
    (∃ v w, a = scalar v ∧ b = scalar w) ∨
      (∃ as bs, a = mapping as ∧ b = mapping bs ∧ Entries.names as = Entries.names bs) ∨
      (∃ as bs, a = sequence as ∧ b = sequence bs ∧ as.length = bs.length) ∨
      (∃ as bs, a = set as ∧ b = set bs ∧ as.length = bs.length) ∨
      ∃ n as bs, a = record n as ∧ b = record n bs ∧ as.map Prod.fst = bs.map Prod.fst := by
  have hmarker : Marker.ofDocument? a = Marker.ofDocument? b := congrArg Prod.fst h
  cases a <;> cases b <;>
    simp only [Marker.ofDocument?, reduceCtorEq, Option.some.injEq, Marker.record.injEq] at hmarker
  case scalar.scalar v w => exact Or.inl ⟨v, w, rfl, rfl⟩
  case mapping.mapping as bs =>
    exact Or.inr (Or.inl ⟨as, bs, rfl, rfl, (outline_mapping_iff as bs).1 h⟩)
  case sequence.sequence as bs =>
    exact Or.inr (Or.inr (Or.inl ⟨as, bs, rfl, rfl, (outline_sequence_iff as bs).1 h⟩))
  case set.set as bs =>
    exact Or.inr (Or.inr (Or.inr (Or.inl ⟨as, bs, rfl, rfl, (outline_set_iff as bs).1 h⟩)))
  case record.record m as n bs =>
    obtain ⟨rfl, hnames⟩ := hmarker
    exact Or.inr (Or.inr (Or.inr (Or.inr ⟨m, as, bs, rfl, rfl, hnames⟩)))

theorem kind_of_outline {a b : Document} (h : a.outline = b.outline) : a.kind = b.kind := by
  rcases outline_cases h with ⟨v, w, rfl, rfl⟩ | ⟨as, bs, rfl, rfl, -⟩ | ⟨as, bs, rfl, rfl, -⟩ |
    ⟨as, bs, rfl, rfl, -⟩ | ⟨n, as, bs, rfl, rfl, -⟩
  · rfl
  · rfl
  · rfl
  · rfl
  · rfl

theorem tokens_nodup_of_outline {a b : Document} (hb : b.namesDistinct = true)
    (h : a.outline = b.outline) : a.tokens.Nodup := by
  have htokens : a.tokens = b.tokens := congrArg Prod.snd h
  rw [htokens]
  exact children_tokens_nodup hb

end Document

end PathDoc
