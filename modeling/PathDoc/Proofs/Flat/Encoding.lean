import Mathlib.Data.List.Sort
import PathDoc.Flat.Encoding
import PathDoc.Proofs.Flat.Tree
import PathDoc.Proofs.Path.RoundTrip

/-!
# Encoding dictionaries as mappings

The texts of different paths are different, so the encoding of a dictionary has one entry for each
of its own (`toDocument_eq`), and a dictionary that is decoded again is the same one
(`ofDocument_toDocument`). The exceptions are lookalikes, values that are mappings with an entry
`$marker`. Decoding takes them for markers, or fails if they spell none; whatever is decoded has
markers in their place (`entries_of_ofDocument`).
-/

set_option autoImplicit false

namespace PathDoc

namespace Document

theorem itemsToJson_texts (texts : List String) :
    itemsToJson (itemsOfJson (texts.map .string)) = texts.map .string := by
  induction texts with
  | nil => rfl
  | cons text rest ih => exact congrArg (Json.string text :: ·) ih

/-- A marker survives as a document. -/
theorem toJson_ofJson_marker (marker : Marker) : (ofJson marker.toJson).toJson = marker.toJson := by
  cases marker with
  | record name fields =>
      simp only [Marker.toJson, ofJson, entriesOfJson, toJson, entriesToJson, itemsToJson_texts]
      rfl
  | mapping => rfl
  | sequence => rfl
  | set => rfl

theorem encodesMarker_ofJson (marker : Marker) : (ofJson marker.toJson).encodesMarker = true := by
  cases marker <;> rfl

end Document

/-! ## Entries -/

namespace Entry

/-- Whether the encoding of an entry is taken for a marker although the entry is a value. -/
def isLookalike : Entry → Bool
  | value document => document.encodesMarker
  | marker _ => false

/-- What an entry is read back as. A lookalike becomes the marker that it spells; one that spells
none is not read back, whatever is chosen here. -/
def readBack : Entry → Entry
  | value document =>
    if document.encodesMarker then .marker ((Marker.ofJson? document.toJson).getD .mapping)
    else .value document
  | marker kind => .marker kind

theorem decode_encode {entry : Entry} (h : entry.isLookalike = false) (text : String) :
    decode text entry.encode = .ok entry := by
  cases entry with
  | value document => exact if_neg (Bool.not_eq_true _ ▸ h)
  | marker kind =>
      rw [encode, decode, if_pos (Document.encodesMarker_ofJson kind),
        Document.toJson_ofJson_marker, Marker.ofJson?_toJson]

theorem eq_readBack_of_decode {text : String} {entry read : Entry}
    (h : decode text entry.encode = .ok read) : read = entry.readBack := by
  cases hl : entry.isLookalike with
  | false =>
      rw [decode_encode hl] at h
      cases h
      cases entry with
      | value document => exact (if_neg (Bool.not_eq_true _ ▸ hl)).symm
      | marker kind => rfl
  | true =>
      cases entry with
      | marker kind => cases hl
      | value document =>
          -- a lookalike is read only if it spells a marker
          have hl' : document.encodesMarker = true := hl
          rw [encode, decode, if_pos hl'] at h
          rw [readBack, if_pos hl']
          cases hm : Marker.ofJson? document.toJson with
          | none =>
              rw [hm] at h
              cases h
          | some kind =>
              rw [hm] at h
              cases h
              rfl

end Entry

/-! ## Dictionaries -/

/-- **Lists in the order of a key are equal if they have the same members.** -/
theorem eq_of_mem_iff_of_sorted {α κ : Type} [Ord κ] [Std.OrientedOrd κ] (key : α → κ)
    {as bs : List α} (ha : as.Pairwise fun a b => compare (key a) (key b) = .lt)
    (hb : bs.Pairwise fun a b => compare (key a) (key b) = .lt) (h : ∀ a, a ∈ as ↔ a ∈ bs) :
    as = bs := by
  have hirrefl : Std.Irrefl fun a b : α => compare (key a) (key b) = .lt :=
    ⟨fun a hlt => ne_of_compare_lt hlt rfl⟩
  have hantisymm : Std.Antisymm fun a b : α => compare (key a) (key b) = .lt := by
    refine ⟨fun a b hab hba => ?_⟩
    rw [Std.OrientedCmp.gt_of_lt hab] at hba
    cases hba
  exact ha.eq_of_mem_iff hb h

namespace PathDict

theorem decodeEntries_encode {entries : List (Path × Entry)}
    (hr : ∀ e ∈ entries, e.1.inRange = true) (hl : ∀ e ∈ entries, e.2.isLookalike = false) :
    decodeEntries (entries.map fun e => (e.1.text, e.2.encode)) = .ok entries := by
  induction entries with
  | nil => rfl
  | cons e rest ih =>
      rw [List.forall_mem_cons] at hr hl
      rw [List.map_cons, decodeEntries, Entry.decode_encode hl.1, Path.parse_canonical hr.1,
        ih hr.2 hl.2]
      rfl

theorem eq_readBack_of_decodeEntries {entries read : List (Path × Entry)}
    (hr : ∀ e ∈ entries, e.1.inRange = true)
    (h : decodeEntries (entries.map fun e => (e.1.text, e.2.encode)) = .ok read) :
    read = entries.map fun e => (e.1, e.2.readBack) := by
  induction entries generalizing read with
  | nil =>
      cases h
      rfl
  | cons e rest ih =>
      -- the text is read as the path it was made from, so only the value can fail
      rw [List.forall_mem_cons] at hr
      rw [List.map_cons, decodeEntries, Path.parse_canonical hr.1] at h
      cases hd : Entry.decode e.1.text e.2.encode with
      | error fault =>
          rw [hd] at h
          cases h
      | ok entry =>
          rw [hd] at h
          cases hrest : decodeEntries (rest.map fun e => (e.1.text, e.2.encode)) with
          | error fault =>
              rw [hrest] at h
              cases h
          | ok others =>
              rw [hrest] at h
              cases h
              rw [List.map_cons, ← ih hr.2 hrest, ← Entry.eq_readBack_of_decode hd]

/-- A dictionary is the list of its entries. -/
theorem ext {a b : PathDict} (h : a.entries = b.entries) : a = b := by
  cases a
  cases b
  cases h
  rfl

/-- **Entries that come in the order of their paths make a dictionary of just these entries.** -/
theorem entries_ofList {entries : List (Path × Entry)}
    (h : entries.Pairwise fun a b => compare a.1 b.1 = .lt) : (ofList entries).entries = entries := by
  have hp : (ofList entries).entries.Perm entries := ofList_perm (keys_nodup h)
  exact eq_of_mem_iff_of_sorted Prod.fst (ofList entries).sorted h fun _ => hp.mem_iff

/-- The texts of the paths of a dictionary are different. -/
theorem texts_nodup {dict : PathDict} (hr : ∀ e ∈ dict.entries, e.1.inRange = true) :
    (dict.entries.map fun e => e.1.text).Nodup := by
  have htexts : (dict.entries.map fun e => e.1.text) =
      (dict.entries.map Prod.fst).map Path.text := by
    rw [List.map_map]
    rfl
  rw [htexts]
  refine List.Nodup.map_on (fun p hp q hq he => ?_) (keys_nodup dict.sorted)
  obtain ⟨a, ha, rfl⟩ := List.mem_map.1 hp
  obtain ⟨b, hb, rfl⟩ := List.mem_map.1 hq
  exact Path.text_inj (hr a ha) (hr b hb) he

/-- The texts of the paths are different, so every entry keeps its own name. -/
theorem toDocument_eq {dict : PathDict} (hr : ∀ e ∈ dict.entries, e.1.inRange = true) :
    dict.toDocument = .mapping (dict.entries.map fun e => (e.1.text, e.2.encode)) := by
  have hnames : (Entries.names (dict.entries.map fun e => (e.1.text, e.2.encode))).Nodup := by
    rw [Entries.names, List.map_map]
    exact texts_nodup hr
  rw [toDocument, Document.ofPairs, Entries.ofList_of_nodup hnames]

/-- **A dictionary without lookalikes is read back from its encoding.** -/
theorem ofDocument_toDocument {dict : PathDict} (hr : ∀ e ∈ dict.entries, e.1.inRange = true)
    (hl : ∀ e ∈ dict.entries, e.2.isLookalike = false) : ofDocument dict.toDocument = .ok dict := by
  rw [toDocument_eq hr, ofDocument, decodeEntries_encode hr hl]
  exact congrArg Except.ok (ext (entries_ofList dict.sorted))

/-- **Whatever is read back from the encoding of a dictionary has markers for its lookalikes.** -/
theorem entries_of_ofDocument {dict read : PathDict} (hr : ∀ e ∈ dict.entries, e.1.inRange = true)
    (h : ofDocument dict.toDocument = .ok read) :
    read.entries = dict.entries.map fun e => (e.1, e.2.readBack) := by
  rw [toDocument_eq hr, ofDocument] at h
  cases hd : decodeEntries (dict.entries.map fun e => (e.1.text, e.2.encode)) with
  | error fault =>
      rw [hd] at h
      cases h
  | ok entries =>
      rw [hd] at h
      cases h
      rw [eq_readBack_of_decodeEntries hr hd]
      apply entries_ofList
      exact List.pairwise_map.2 dict.sorted

end PathDict

end PathDoc
