import PathDoc.Document.Json
import PathDoc.Proofs.Document.Nodes
import PathDoc.Proofs.Json.RoundTrip

/-!
# Documents as JSON texts

A document is turned into a JSON value or written field by field; the two differ only where a record
repeats the name of a field (`toJson_eq_written`). The value of a document of the kinds that JSON
has turns back into the document (`ofJson_toJson`) and is read back from its text if the names of
mappings are distinct, numbers are rounded to themselves and containers nest no deeper than a reader
allows (`readable_toJson`). So such a document comes back from its text (`render_serialized`).
-/

set_option autoImplicit false

namespace PathDoc.Document

/-! ## Conditions -/

/-- Whether the names of the fields of a record are distinct. -/
@[simp] def hasDistinctFields : Document → Bool
  | record _ fields => decide (Entries.names fields).Nodup
  | _ => true

/-- Whether no record in a document repeats the name of a field. -/
abbrev fieldsDistinct (document : Document) : Bool :=
  document.everywhere hasDistinctFields

/-- Whether a node is of a kind that JSON has: no set, no record and no number that is not finite.
-/
@[simp] def isJsonNode : Document → Bool
  | scalar (.float value) => value.isFinite
  | set _ => false
  | record _ _ => false
  | _ => true

/-- Whether a document consists of the kinds of values that JSON has. -/
abbrev isJsonData (document : Document) : Bool :=
  document.everywhere isJsonNode

/-- Whether a floating-point number is rounded to itself when its text is read. -/
@[simp] def leafReadsBack : Document → Bool
  | scalar (.float value) => Json.readsBack value
  | _ => true

/-- Whether all floating-point numbers of a document are rounded to themselves when their texts are
read. -/
abbrev numbersReadBack (document : Document) : Bool :=
  document.everywhere leafReadsBack

/-- The kinds of values that JSON has include no record. -/
theorem fieldsDistinct_of_isJsonData {document : Document} (h : document.isJsonData = true) :
    document.fieldsDistinct = true := by
  apply everywhere_imp _ h
  intro node hnode
  cases node with
  | record name fields => cases hnode
  | _ => rfl

mutual

/-- How deep the containers of a document nest. -/
def nesting : Document → Nat
  | scalar _ => 0
  | mapping entries => nestingEntries entries + 1
  | sequence items => nestingItems items + 1
  | set members => nestingItems members + 1
  | record _ fields => nestingEntries fields + 1

/-- How deep the containers of items nest. -/
def nestingItems : List Document → Nat
  | [] => 0
  | item :: rest => max item.nesting (nestingItems rest)

/-- How deep the containers of the values of entries nest. -/
def nestingEntries : List (String × Document) → Nat
  | [] => 0
  | (_, value) :: rest => max value.nesting (nestingEntries rest)

end

theorem nestingItems_le_iff {items : List Document} {depth : Nat} :
    nestingItems items ≤ depth ↔ ∀ item ∈ items, item.nesting ≤ depth := by
  induction items with
  | nil => simp [nestingItems]
  | cons item rest ih => rw [nestingItems, Nat.max_le, ih, List.forall_mem_cons]

theorem nestingEntries_le_iff {entries : List (String × Document)} {depth : Nat} :
    nestingEntries entries ≤ depth ↔ ∀ entry ∈ entries, entry.2.nesting ≤ depth := by
  induction entries with
  | nil => simp [nestingEntries]
  | cons entry rest ih =>
      obtain ⟨name, value⟩ := entry
      rw [nestingEntries, Nat.max_le, ih, List.forall_mem_cons]

/-! ## Values and texts -/

theorem itemsToJson_eq (items : List Document) : itemsToJson items = items.map toJson := by
  induction items with
  | nil => rfl
  | cons item rest ih => rw [itemsToJson, ih, List.map_cons]

theorem entriesToJson_eq (entries : List (String × Document)) :
    entriesToJson entries = entries.map fun entry => (entry.1, entry.2.toJson) := by
  induction entries with
  | nil => rfl
  | cons entry rest ih => rw [entriesToJson, ih, List.map_cons]

theorem writtenItems_eq (items : List Document) : writtenItems items = items.map written := by
  induction items with
  | nil => rfl
  | cons item rest ih => rw [writtenItems, ih, List.map_cons]

theorem writtenEntries_eq (entries : List (String × Document)) :
    writtenEntries entries = entries.map fun entry => (entry.1, entry.2.written) := by
  induction entries with
  | nil => rfl
  | cons entry rest ih => rw [writtenEntries, ih, List.map_cons]

theorem names_entriesToJson (entries : List (String × Document)) :
    Entries.names (entriesToJson entries) = Entries.names entries := by
  rw [entriesToJson_eq, Entries.names, Entries.names, List.map_map]
  rfl

/-- **Without repeated fields the JSON value of a document is what is written out for it.** -/
theorem toJson_eq_written {document : Document} (h : document.fieldsDistinct = true) :
    document.toJson = document.written := by
  -- only records can lose a field, so the lists of children come first
  have hentries : ∀ entries : List (String × Document),
      (∀ entry ∈ entries, entry.2.toJson = entry.2.written) →
        entriesToJson entries = writtenEntries entries := by
    intro entries heach
    rw [entriesToJson_eq, writtenEntries_eq]
    exact List.map_congr_left fun entry hm => by rw [heach entry hm]
  have hitems : ∀ items : List Document, (∀ item ∈ items, item.toJson = item.written) →
      itemsToJson items = writtenItems items := by
    intro items heach
    rw [itemsToJson_eq, writtenItems_eq]
    exact List.map_congr_left heach
  induction document using Document.induct with
  | scalar value => rfl
  | mapping entries ih =>
      obtain ⟨-, heach⟩ := everywhere_mapping entries |>.1 h
      rw [toJson, written, hentries entries fun entry hm => ih entry hm (heach entry hm)]
  | sequence items ih =>
      obtain ⟨-, heach⟩ := everywhere_sequence items |>.1 h
      rw [toJson, written, hitems items fun item hm => ih item hm (heach item hm)]
  | set members ih =>
      obtain ⟨-, heach⟩ := everywhere_set members |>.1 h
      rw [toJson, written, hitems members fun item hm => ih item hm (heach item hm)]
  | record name fields ih =>
      obtain ⟨hnames, heach⟩ := everywhere_record name fields |>.1 h
      have hdistinct : (Entries.names (entriesToJson fields)).Nodup := by
        rw [names_entriesToJson]
        exact of_decide_eq_true hnames
      rw [toJson, written, Entries.ofList_of_nodup hdistinct,
        hentries fields fun entry hm => ih entry hm (heach entry hm)]

/-! ## Back again -/

theorem itemsOfJson_eq (items : List Json) : itemsOfJson items = items.map ofJson := by
  induction items with
  | nil => rfl
  | cons item rest ih => rw [itemsOfJson, ih, List.map_cons]

theorem entriesOfJson_eq (entries : List (String × Json)) :
    entriesOfJson entries = entries.map fun entry => (entry.1, ofJson entry.2) := by
  induction entries with
  | nil => rfl
  | cons entry rest ih => rw [entriesOfJson, ih, List.map_cons]

/-- **A document of the kinds that JSON has is the one of its JSON value.** -/
theorem ofJson_toJson {document : Document} (h : document.isJsonData = true) :
    ofJson document.toJson = document := by
  induction document using Document.induct with
  | scalar value =>
      cases value with
      -- an integer is a word and is read as one again
      | int value => rw [toJson, Scalar.toJson, ofJson, Decimal.word?_toInt]; rfl
      | float value =>
          have hfinite : value.isFinite = true := h
          rw [toJson, Scalar.toJson, if_pos hfinite]
          rfl
      | _ => rfl
  | mapping entries ih =>
      obtain ⟨-, heach⟩ := everywhere_mapping entries |>.1 h
      have hback : ∀ entry ∈ entries, (entry.1, ofJson entry.2.toJson) = entry :=
        fun entry hm => by rw [ih entry hm (heach entry hm)]
      rw [toJson, ofJson, entriesToJson_eq, entriesOfJson_eq, List.map_map]
      exact congrArg mapping ((List.map_congr_left hback).trans (List.map_id entries))
  | sequence items ih =>
      obtain ⟨-, heach⟩ := everywhere_sequence items |>.1 h
      have hback : ∀ item ∈ items, ofJson item.toJson = item :=
        fun item hm => ih item hm (heach item hm)
      rw [toJson, ofJson, itemsToJson_eq, itemsOfJson_eq, List.map_map]
      exact congrArg sequence ((List.map_congr_left hback).trans (List.map_id items))
  -- neither sets nor records are data of JSON
  | set members ih => cases (everywhere_set members |>.1 h).1
  | record name fields ih => cases (everywhere_record name fields |>.1 h).1

/-- **The JSON value of a document is readable.** -/
theorem readable_toJson {document : Document} (hdata : document.isJsonData = true)
    (hnames : document.namesDistinct = true) (hnumbers : document.numbersReadBack = true)
    {depth : Nat} (hdepth : document.nesting ≤ depth) : Json.Readable depth document.toJson := by
  -- every container is one level of nesting, so its children have one less at hand
  induction document using Document.induct generalizing depth with
  | scalar value =>
      cases value with
      | null => exact .null depth
      | bool value => exact .bool depth value
      | int value =>
          have hlow := Int64.le_toInt value
          have hhigh := Int64.toInt_lt value
          exact .int depth (by omega) (by omega)
      | float value =>
          have hfinite : value.isFinite = true := hdata
          rw [toJson, Scalar.toJson, if_pos hfinite]
          exact .float depth hfinite hnumbers
      | string value => exact .string depth value
  | mapping entries ih =>
      obtain ⟨-, hdata⟩ := everywhere_mapping entries |>.1 hdata
      obtain ⟨hdistinct, hnames⟩ := everywhere_mapping entries |>.1 hnames
      obtain ⟨-, hnumbers⟩ := everywhere_mapping entries |>.1 hnumbers
      obtain ⟨depth, rfl⟩ := Nat.exists_eq_add_of_le' (Nat.le_trans (Nat.succ_pos _) hdepth)
      have hbelow := nestingEntries_le_iff.1 (Nat.le_of_succ_le_succ hdepth)
      rw [toJson]
      apply Json.Readable.object
      · rw [names_entriesToJson]
        exact of_decide_eq_true hdistinct
      · rw [entriesToJson_eq]
        intro entry hm
        obtain ⟨own, hown, rfl⟩ := List.mem_map.1 hm
        exact ih own hown (hdata own hown) (hnames own hown) (hnumbers own hown) (hbelow own hown)
  | sequence items ih =>
      obtain ⟨-, hdata⟩ := everywhere_sequence items |>.1 hdata
      obtain ⟨-, hnames⟩ := everywhere_sequence items |>.1 hnames
      obtain ⟨-, hnumbers⟩ := everywhere_sequence items |>.1 hnumbers
      obtain ⟨depth, rfl⟩ := Nat.exists_eq_add_of_le' (Nat.le_trans (Nat.succ_pos _) hdepth)
      have hbelow := nestingItems_le_iff.1 (Nat.le_of_succ_le_succ hdepth)
      rw [toJson, itemsToJson_eq]
      apply Json.Readable.array
      intro item hm
      obtain ⟨own, hown, rfl⟩ := List.mem_map.1 hm
      exact ih own hown (hdata own hown) (hnames own hown) (hnumbers own hown) (hbelow own hown)
  | set members ih => cases (everywhere_set members |>.1 hdata).1
  | record name fields ih => cases (everywhere_record name fields |>.1 hdata).1

/-! ## Texts -/

/-- **Documents and their texts.** If no record repeats the name of a field, the text of a document
on one line is the same whether the document is turned into a JSON value first or written field by
field. If a document consists of the kinds of values that JSON has, names of mappings are distinct,
floating-point numbers are rounded to themselves and containers nest no deeper than the limit of the
reader, the document is read back from this text: integers as integers, floating-point numbers as
such, and entries in their order. -/
theorem render_serialized (document : Document) :
    (document.fieldsDistinct = true → document.dump false = document.render) ∧
    (document.isJsonData = true → document.namesDistinct = true →
      document.numbersReadBack = true → document.nesting ≤ Json.nestingLimit →
      document.dump false = document.render ∧
        (Json.read? document.render).map ofJson = some document) := by
  have hsame : document.fieldsDistinct = true → document.dump false = document.render := by
    intro h
    rw [dump, if_neg Bool.false_ne_true, render, toJson_eq_written h]
  refine ⟨hsame, ?_⟩
  intro hdata hnames hnumbers hdepth
  refine ⟨hsame (fieldsDistinct_of_isJsonData hdata), ?_⟩
  rw [render, Json.read?_compact (readable_toJson hdata hnames hnumbers hdepth), Option.map_some,
    ofJson_toJson hdata]

/-- A record with a set and a number that is not finite; and a mapping with integers, whole numbers,
fractions and a negative zero, names out of alphabetical order and texts with escapes. -/
theorem render_serialized_mapping :
    let point := record "point" [("y", set [float (1.0 / 0.0)]), ("x", int 2)]
    let table := mapping [
      ("b", sequence [int 1, float 1.0, float (-2.5), float (-0.0), null]),
      ("\"\n", mapping [("a", string "\\\x01é"), ("", bool true)]), ("a", sequence [])]
    (point.fieldsDistinct = true ∧ point.dump false = point.render) ∧
    table.isJsonData = true ∧ table.namesDistinct = true ∧ table.numbersReadBack = true ∧
      table.nesting ≤ Json.nestingLimit ∧
      (Json.read? table.render).map ofJson = some table := by
  intro point table
  have hfields : point.fieldsDistinct = true := by decide +kernel
  have hdata : table.isJsonData = true := by decide +kernel
  have hnames : table.namesDistinct = true := by decide +kernel
  have hnumbers : table.numbersReadBack = true := by decide +kernel
  have hdepth : table.nesting ≤ Json.nestingLimit := by decide +kernel
  exact ⟨⟨hfields, (render_serialized point).1 hfields⟩, hdata, hnames, hnumbers, hdepth,
    ((render_serialized table).2 hdata hnames hnumbers hdepth).2⟩

end PathDoc.Document
