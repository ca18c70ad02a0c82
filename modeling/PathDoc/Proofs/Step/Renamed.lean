import PathDoc.Proofs.Write.ReplaceAt
import PathDoc.Step.Basic

/-!
# Renaming an entry

A mapping is rebuilt around a renamed entry: the entry keeps its place and its value, an entry that
had the new name before is dropped, and the others stay (`renameEntry_eq`). The rebuilt mapping
replaces the old one at its path, so nothing else changes, and renaming back undoes a renaming that
dropped nothing (`rename_keepsPlace`).
-/

set_option autoImplicit false

namespace PathDoc

namespace Navigator

variable {navigator : Navigator}

/-- Entries that do not have the old name keep theirs, and one with the new name is dropped. -/
theorem map_filter_rename {entries : Entries Document} {old : String} (new : String)
    (h : old ∉ Entries.names entries) :
    (entries.filter fun entry => entry.1 != new || entry.1 == old).map
        (fun entry => (if entry.1 = old then new else entry.1, entry.2)) =
      Entries.erase entries new := by
  have hne : ∀ entry ∈ entries, entry.1 ≠ old := by
    rintro entry hm rfl
    exact h (List.mem_map_of_mem hm)
  have hfilter : (entries.filter fun entry => entry.1 != new || entry.1 == old) =
      Entries.erase entries new := by
    refine List.filter_congr fun entry hm => ?_
    rw [beq_eq_false_iff_ne.2 (hne entry hm), Bool.or_false]
  rw [hfilter]
  conv_rhs => rw [← List.map_id (Entries.erase entries new)]
  refine List.map_congr_left fun entry hm => ?_
  rw [if_neg (hne entry (List.mem_of_mem_filter hm))]
  rfl

/-- **The renamed entry keeps its place**, and an entry that had the new name is dropped. -/
theorem renameEntry_eq {before behind : Entries Document} {old : String} {value : Document}
    (hn : (Entries.names (before ++ (old, value) :: behind)).Nodup) (new : String) :
    renameEntry (before ++ (old, value) :: behind) old new =
      Entries.erase before new ++ (new, value) :: Entries.erase behind new := by
  obtain ⟨⟨hbefore, hbehind⟩, hothers⟩ := Entries.nodup_names_between.1 hn
  rw [renameEntry, List.filter_append, List.map_append, map_filter_rename new hbefore,
    List.filter_cons_of_pos (by simp), List.map_cons, map_filter_rename new hbehind, if_pos rfl]
  -- what is left has different names, so inserting the entries one by one keeps them as they are
  refine Entries.ofList_of_nodup (Entries.nodup_names_between.2 ⟨⟨?_, ?_⟩, ?_⟩)
  · exact Entries.notMem_erase before new
  · exact Entries.notMem_erase behind new
  · exact hothers.sublist (List.Sublist.append (List.filter_sublist.map _)
      (List.filter_sublist.map _))

/-- The entries of the mapping that a path leads to. -/
theorem mappingAt_of_get {document : Document} {path : Path} {entries : Entries Document}
    (hg : navigator.get document path = .ok (.mapping entries)) :
    navigator.mappingAt document path = .ok entries := by
  rw [mappingAt, hg]

/-- The names of the mapping that a path leads to are distinct. -/
theorem nodup_names_of_get {document : Document} {path : Path} {entries : Entries Document}
    (hd : document.namesDistinct = true)
    (hg : navigator.get document path = .ok (.mapping entries)) :
    (Entries.names entries).Nodup :=
  of_decide_eq_true ((Document.everywhere_mapping _).1 (everywhere_of_get hd hg)).1

/-- Renaming an entry is writing the rebuilt mapping. -/
theorem rename_eq_set {document : Document} {parents : Path} {last : Token}
    {entries : Entries Document} (hg : navigator.get document parents = .ok (.mapping entries))
    (hm : last.text ∈ Entries.names entries) (new : String) :
    navigator.rename document (parents ++ [last]) new =
      navigator.set document parents (.value (.mapping (renameEntry entries last.text new))) := by
  rw [rename, List.getLast?_concat, List.dropLast_concat]
  dsimp only
  rw [mappingAt_of_get hg]
  exact if_pos (Entries.contains_iff.2 hm)

section

variable {document : Document} {parents : Path} {last : Token} {value : Document}
  {before behind : Entries Document}

/-- **Renaming an entry replaces its mapping** by the one in which the entry has its new name. -/
theorem rename_eq_ok (hd : document.namesDistinct = true)
    (hg : navigator.get document parents =
      .ok (.mapping (before ++ (last.text, value) :: behind)))
    (hset : parents ≠ [] → ∀ container,
      navigator.get document parents.dropLast = .ok container → container.kind ≠ .set)
    (new : String) :
    navigator.rename document (parents ++ [last]) new =
      .ok (navigator.replaceAt document parents
        (.mapping (Entries.erase before new ++ (new, value) :: Entries.erase behind new))) := by
  have hm : last.text ∈ Entries.names (before ++ (last.text, value) :: behind) :=
    List.mem_map_of_mem (f := Prod.fst) (List.mem_append_right before List.mem_cons_self)
  rw [rename_eq_set hg hm new, renameEntry_eq (nodup_names_of_get hd hg),
    set_eq_replaceAt hg (hasTwinAt_of_kind hset _)]

/-- **An entry with a new name gets its old one back.** -/
theorem rename_replaceAt_back (hn : navigator.GoesByOutline)
    (hd : document.namesDistinct = true)
    (hg : navigator.get document parents =
      .ok (.mapping (before ++ (last.text, value) :: behind)))
    (hset : parents ≠ [] → ∀ container,
      navigator.get document parents.dropLast = .ok container → container.kind ≠ .set)
    {back : Token} (hbefore : back.text ∉ Entries.names before)
    (hbehind : back.text ∉ Entries.names behind) :
    navigator.rename
        (navigator.replaceAt document parents
          (.mapping (before ++ (back.text, value) :: behind)))
        (parents ++ [back]) last.text =
      .ok document := by
  -- the old name is new to the rebuilt mapping
  obtain ⟨⟨hbefore', hbehind'⟩, hothers⟩ :=
    Entries.nodup_names_between.1 (nodup_names_of_get hd hg)
  have hnames : (Entries.names (before ++ (back.text, value) :: behind)).Nodup :=
    Entries.nodup_names_between.2 ⟨⟨hbefore, hbehind⟩, hothers⟩
  have hback : back.text ∈ Entries.names (before ++ (back.text, value) :: behind) :=
    List.mem_map_of_mem (f := Prod.fst) (List.mem_append_right before List.mem_cons_self)
  rw [rename_eq_set (get_replaceAt hn hg _) hback, renameEntry_eq hnames,
    Entries.erase_of_notMem hbefore', Entries.erase_of_notMem hbehind',
    set_replaceAt hn hg (hasTwinAt_of_kind hset _), replaceAt_self hg]

/-- **With the standard accessors or none an entry that is renamed can be renamed back**, if its new
name was not there before. -/
theorem IsStandard.rename_back (hn : navigator.IsStandard) (hd : document.namesDistinct = true)
    (hg : navigator.get document parents =
      .ok (.mapping (before ++ (last.text, value) :: behind)))
    (hset : parents ≠ [] → ∀ container,
      navigator.get document parents.dropLast = .ok container → container.kind ≠ .set)
    {back : Token} (hbefore : back.text ∉ Entries.names before)
    (hbehind : back.text ∉ Entries.names behind) :
    ∃ after, navigator.rename document (parents ++ [last]) back.text = .ok after ∧
      navigator.rename after (parents ++ [back]) last.text = .ok document := by
  refine ⟨_, rename_eq_ok hd hg hset back.text, ?_⟩
  rw [Entries.erase_of_notMem hbefore, Entries.erase_of_notMem hbehind]
  exact rename_replaceAt_back hn.goesByOutline hd hg hset hbefore hbehind

end

/-- **A renamed entry keeps its place.** Let a path lead to a mapping that is no member of a set,
and let a token name an entry of it. Renaming the entry succeeds; the mapping has its entries in
their order, the one under its new name in its place and without another one of that name, and
nothing else in the document changes. Renaming the entry back gives the document again if the new
name was not there before, for a navigator that goes by the outlines of nodes. -/
theorem rename_keepsPlace {document : Document} {parents : Path} {last : Token}
    {entries : Entries Document} (hd : document.namesDistinct = true)
    (hg : navigator.get document parents = .ok (.mapping entries))
    (hm : last.text ∈ Entries.names entries)
    (hset : parents ≠ [] → ∀ container,
      navigator.get document parents.dropLast = .ok container → container.kind ≠ .set)
    (new : String) :
    ∃ before value behind, entries = before ++ (last.text, value) :: behind ∧
      ∃ after, navigator.rename document (parents ++ [last]) new = .ok after ∧
        (∃ address, navigator.address document parents = some address ∧
          Document.ReplacedAt document after address (.mapping entries)
            (.mapping (Entries.erase before new ++ (new, value) :: Entries.erase behind new))) ∧
        (navigator.GoesByOutline → new ∉ Entries.names entries → ∀ back : Token, back.text = new →
          navigator.rename after (parents ++ [back]) last.text = .ok document) := by
  obtain ⟨⟨name, value⟩, hentry, hname⟩ := List.mem_map.1 hm
  obtain rfl : name = last.text := hname
  obtain ⟨before, behind, rfl⟩ := List.append_of_mem hentry
  refine ⟨before, value, behind, rfl, _, rename_eq_ok hd hg hset new,
    replacedAt_replaceAt hd hg _, ?_⟩
  rintro hnavigator hnew back rfl
  rw [Entries.names, List.map_append, List.map_cons, List.mem_append, List.mem_cons] at hnew
  push Not at hnew
  obtain ⟨hbefore, -, hbehind⟩ := hnew
  rw [Entries.erase_of_notMem hbefore, Entries.erase_of_notMem hbehind]
  exact rename_replaceAt_back hnavigator hd hg hset hbefore hbehind

/-- An entry gets a name that another entry behind it has, which is dropped, and one gets a new name
and its old one again. -/
theorem rename_keepsPlace_before_namesake :
    let entries : Entries Document := [("a", .int 1), ("b", .int 2), ("c", .int 3)]
    let document : Document := .record "Box" [("items", .sequence [.mapping entries, .null])]
    let parents : Path := [.key "items", .key "first"]
    document.namesDistinct = true ∧
      standard.get document parents = .ok (.mapping entries) ∧
      (parents ≠ [] → ∀ container, standard.get document parents.dropLast = .ok container →
        container.kind ≠ .set) ∧
      ("a" ∈ Entries.names entries ∧ "b" ∈ Entries.names entries) ∧
      standard.rename document (parents ++ [.key "a"]) "c" =
        .ok (.record "Box" [("items",
          .sequence [.mapping [("c", .int 1), ("b", .int 2)], .null])]) ∧
      ∃ after, standard.rename document (parents ++ [.key "b"]) "z" = .ok after ∧
        standard.rename after (parents ++ [.key "z"]) "b" = .ok document := by
  intro entries document parents
  have hd : document.namesDistinct = true := by decide
  have hg : standard.get document parents = .ok (.mapping entries) := by rfl
  have hset : parents ≠ [] → ∀ container,
      standard.get document parents.dropLast = .ok container → container.kind ≠ .set := by
    -- the mapping is an item of a sequence, not a member of a set
    intro _ container hc
    have hsequence : (Except.ok (.sequence [.mapping entries, .null]) : Outcome Document) =
        .ok container := hc
    cases hsequence
    exact Kind.noConfusion
  have hm : "a" ∈ Entries.names entries ∧ "b" ∈ Entries.names entries := by decide
  have hlast : (Token.key "b").text ∈ Entries.names entries := hm.2
  obtain ⟨_, _, _, -, after, hafter, -, hback⟩ := rename_keepsPlace hd hg hlast hset "z"
  refine ⟨hd, hg, hset, hm, by rfl, after, hafter, ?_⟩
  exact hback (IsStandard.goesByOutline (Or.inl rfl)) (by decide) (.key "z") rfl

end Navigator

end PathDoc
