import PathDoc.Proofs.Document.PartialEquivalence
import PathDoc.Proofs.Step.Renamed

/-!
# Putting listed entries first

A mapping is rebuilt from the entries under some listed names, in the order of their first mention,
and the remaining ones in their order: the same entries in another order (`reorderEntries_spec`).
The rebuilt mapping takes the place of the old one, in a set too, because it equals it and so equals
no other member (`hasTwinAt_of_reordered`). What comes out is the document with the entries of one
mapping in another order, and doing it again changes nothing (`reorder_listedFirst`).
-/

set_option autoImplicit false

namespace PathDoc

namespace Navigator

variable {navigator : Navigator} {path : Path} {entries : Entries Document} {names : List String}

/-- What is picked are the entries under the names, in the order of the names. -/
theorem pickEntries_spec {picked : Entries Document}
    (h : pickEntries path entries names = .ok picked) :
    Entries.names picked = names ∧ ∀ entry ∈ picked, entry ∈ entries := by
  induction names generalizing picked with
  | nil =>
      cases h
      exact ⟨rfl, fun _ hm => nomatch hm⟩
  | cons name rest ih =>
      rw [pickEntries] at h
      split at h
      · cases h
      · rename_i value hvalue
        obtain ⟨others, hothers, rfl⟩ := map_eq_ok_iff.1 h
        obtain ⟨hnames, hmem⟩ := ih hothers
        refine ⟨by rw [Entries.names, List.map_cons, ← Entries.names, hnames], ?_⟩
        exact List.forall_mem_cons.2 ⟨Entries.mem_of_get? hvalue, hmem⟩

/-- Picking succeeds exactly if all names are there. -/
theorem exists_pickEntries_iff (path : Path) :
    (∃ picked, pickEntries path entries names = .ok picked) ↔
      ∀ name ∈ names, name ∈ Entries.names entries := by
  induction names with
  | nil => exact iff_of_true ⟨[], rfl⟩ fun _ hm => nomatch hm
  | cons name rest ih =>
      rw [List.forall_mem_cons, ← ih, pickEntries, ← Entries.contains_iff, Entries.contains]
      cases Entries.get? entries name with
      | none => simp
      | some value => simp [map_eq_ok_iff]

/-- Rebuilding a mapping succeeds exactly if all listed names are there. -/
theorem exists_reorderEntries_iff (path : Path) :
    (∃ others, reorderEntries path entries names = .ok others) ↔
      ∀ name ∈ names, name ∈ Entries.names entries := by
  rw [← exists_pickEntries_iff path]
  constructor
  · rintro ⟨others, h⟩
    obtain ⟨picked, hpicked, -⟩ := map_eq_ok_iff.1 h
    exact ⟨picked, hpicked⟩
  · rintro ⟨picked, hpicked⟩
    exact ⟨_, map_eq_ok_iff.2 ⟨picked, hpicked, rfl⟩⟩

/-- **The rebuilt mapping has the same entries**, those under the listed names first. -/
theorem reorderEntries_spec {others : Entries Document} (hn : (Entries.names entries).Nodup)
    (h : reorderEntries path entries names = .ok others) :
    others.Perm entries ∧
      Entries.names others =
        names.eraseDups ++ (Entries.names entries).filter (· ∉ names) := by
  obtain ⟨picked, hpicked, rfl⟩ := map_eq_ok_iff.1 h
  obtain ⟨hlisted, hmem⟩ := pickEntries_spec hpicked
  have hfirst : Entries.names (Entries.ofList picked) = names.eraseDups := by
    rw [Entries.names_ofList, hlisted]
  have hcontains : ∀ name, (!Entries.contains (Entries.ofList picked) name) = decide (name ∉ names) := by
    intro name
    rw [Bool.eq_iff_iff]
    simp [← Bool.not_eq_true, Entries.contains_iff, hfirst]
  have hnames : Entries.names (Entries.ofList picked ++
      entries.filter fun entry => !Entries.contains (Entries.ofList picked) entry.1) =
        names.eraseDups ++ (Entries.names entries).filter (· ∉ names) := by
    rw [Entries.names, List.map_append, ← Entries.names, ← Entries.names, hfirst]
    simp only [hcontains]
    rw [Entries.names_filter entries fun name => decide (name ∉ names)]
  refine ⟨?_, hnames⟩
  have hdistinct : (Entries.names (Entries.ofList picked ++
      entries.filter fun entry => !Entries.contains (Entries.ofList picked) entry.1)).Nodup := by
    rw [hnames, List.nodup_append]
    refine ⟨hfirst ▸ Entries.nodup_ofList picked, hn.filter _, ?_⟩
    rintro name hm _ hfilter rfl
    exact of_decide_eq_true (List.mem_filter.1 hfilter).2 (List.mem_eraseDups.1 hm)
  refine (List.perm_ext_iff_of_nodup hdistinct.of_map hn.of_map).2 fun entry => ?_
  rw [List.mem_append, List.mem_filter]
  constructor
  · rintro (hm | ⟨hm, -⟩)
    · exact hmem entry (Entries.mem_ofList hm)
    · exact hm
  · intro hm
    cases hc : Entries.contains (Entries.ofList picked) entry.1 with
    | false => exact Or.inr ⟨hm, rfl⟩
    | true =>
        -- the entry that was picked under this name is the one that is there
        obtain ⟨value, hv⟩ := Entries.exists_mem_of_contains hc
        have hsame := List.inj_on_of_nodup_map hn (hmem _ (Entries.mem_ofList hv)) hm rfl
        exact Or.inl (hsame ▸ hv)

/-- **Rebuilding a mapping again changes nothing.** -/
theorem reorderEntries_again {others : Entries Document} (hn : (Entries.names entries).Nodup)
    (h : reorderEntries path entries names = .ok others) :
    reorderEntries path others names = .ok others := by
  obtain ⟨hperm, hnames⟩ := reorderEntries_spec hn h
  have hothers : (Entries.names others).Nodup := (hperm.map Prod.fst).nodup_iff.2 hn
  have hpresent : ∀ name ∈ names, name ∈ Entries.names others := by
    intro name hm
    rw [hnames]
    exact List.mem_append_left _ (List.mem_eraseDups.2 hm)
  obtain ⟨again, hagain⟩ := (exists_reorderEntries_iff path).2 hpresent
  obtain ⟨hperm', hnames'⟩ := reorderEntries_spec hothers hagain
  -- the listed names are in front already, so the same entries come in the same order
  have hsame : Entries.names again = Entries.names others := by
    have hlisted : names.eraseDups.filter (· ∉ names) = [] := by
      rw [List.filter_eq_nil_iff]
      intro name hm
      simp [List.mem_eraseDups.1 hm]
    rw [hnames', hnames, List.filter_append, hlisted, List.nil_append, List.filter_filter]
    simp
  rw [hagain, Entries.eq_of_perm (hsame ▸ hothers) hperm' hsame]

end Navigator

/-! ## Another order in one place -/

namespace Document

variable {node old value : Document} {slot : Slot}

/-- A list is related to itself with one item exchanged for a related one. -/
theorem forall₂_set {items : List Document} {i : Nat} (hi : i < items.length)
    (h : Reordered items[i] value) : List.Forall₂ Reordered items (items.set i value) := by
  refine List.forall₂_iff_get.2 ⟨List.length_set.symm, fun j hj hj' => ?_⟩
  rw [List.get_eq_getElem, List.get_eq_getElem, List.getElem_set]
  split
  · rename_i he
    subst he
    exact h
  · exact .refl _

/-- **Another order in one child is another order in the container.** -/
theorem Reordered.put (ho : node.at? slot = some old) (h : Reordered old value) :
    Reordered node (node.put slot value) := by
  obtain ⟨hparts, hi⟩ := parts_put ho value
  have hold : node.parts[node.positionAt slot] = old := by
    have hself := (parts_put ho old).1
    rw [put_self ho] at hself
    rw [List.getElem_of_eq hself, List.getElem_set_self]
  have hvalues : List.Forall₂ Reordered node.parts (node.put slot value).parts := by
    rw [hparts]
    refine forall₂_set hi ?_
    rw [hold]
    exact h
  -- the container has its outline, so the parts are those of the same kind with the same names
  rcases outline_cases (outline_put ho value).symm with ⟨v, w, rfl, -⟩ | ⟨as, bs, rfl, hput, hnames⟩ |
    ⟨as, bs, rfl, hput, -⟩ | ⟨as, bs, rfl, hput, -⟩ | ⟨n, as, bs, rfl, hput, hnames⟩
  · cases slot <;> cases ho
  · rw [hput] at hvalues ⊢
    rw [parts_mapping, parts_mapping] at hvalues
    exact .mapping hnames hvalues (List.Perm.refl bs)
  · rw [hput] at hvalues ⊢
    rw [parts_sequence, parts_sequence] at hvalues
    exact .sequence hvalues
  · rw [hput] at hvalues ⊢
    rw [parts_set, parts_set] at hvalues
    exact .set hvalues
  · rw [hput] at hvalues ⊢
    rw [parts_record, parts_record] at hvalues
    exact .record hnames hvalues

/-- The member in a slot of a proper set has no twin. -/
theorem IsProper.hasTwin_self (h : node.IsProper) (ho : node.at? slot = some old) :
    node.hasTwin slot old = false := by
  have hput : (node.put slot old).IsProper := by
    rw [put_self ho]
    exact h
  exact ((put_isProper_iff h ho (h.at? ho).names).1 hput).2

/-- Another order of a member gives it no twin. -/
theorem Reordered.hasTwin_congr (hd : node.namesDistinct = true) (ho : node.at? slot = some old)
    (h : Reordered old value) : node.hasTwin slot value = node.hasTwin slot old := by
  have hold := (everywhere_iff.1 hd).2 old (mem_parts_of_at? ho)
  cases node with
  | set members =>
      cases slot with
      | entry name => rfl
      | child i =>
          rw [everywhere_set] at hd
          -- equal values are equal to the same members
          have hmember : ∀ member ∈ members.eraseIdx i, (member == value) = (member == old) :=
            fun member hm => ((Reordered.refl member).beq_congr h
              (hd.2 member (List.mem_of_mem_eraseIdx hm)) hold).symm
          rw [hasTwin, hasTwin, hasOther, hasOther, Bool.eq_iff_iff, List.any_eq_true,
            List.any_eq_true]
          refine exists_congr fun member => and_congr_right fun hm => ?_
          rw [hmember member hm]
  | scalar v => cases slot <;> rfl
  | mapping entries => cases slot <;> rfl
  | sequence items => cases slot <;> rfl
  | record name fields => cases slot <;> rfl

end Document

namespace Navigator

open Document (Reordered)

variable {navigator : Navigator} {path : Path} {document old value : Document}

/-- **Another order at a path is another order of the document.** -/
theorem reordered_replaceAt (hg : navigator.get document path = .ok old) (h : Reordered old value) :
    Reordered document (navigator.replaceAt document path value) := by
  induction path generalizing document with
  | nil =>
      cases hg
      exact h
  | cons token rest ih =>
      obtain ⟨slot, child, hc, hrest⟩ := get_cons_cases hg
      rw [replaceAt_cons hc]
      exact (ih hrest).put (child_eq_ok_iff.1 hc).2

/-- **Another order of a value gives it no twin**, if no set holds two equal members. -/
theorem hasTwinAt_of_reordered (hd : document.IsProper)
    (hg : navigator.get document path = .ok old) (h : Reordered old value) :
    navigator.hasTwinAt document path value = false := by
  induction path generalizing document with
  | nil => rfl
  | cons token rest ih =>
      obtain ⟨slot, child, hc, hrest⟩ := get_cons_cases hg
      have ho := (child_eq_ok_iff.1 hc).2
      rw [hasTwinAt_cons hc]
      split
      · rename_i hnil
        subst hnil
        cases hrest
        rw [h.hasTwin_congr hd.names ho, hd.hasTwin_self ho]
      · exact ih (hd.at? ho) hrest

/-- The mapping that is rebuilt from listed names is the old one in another order. -/
theorem reordered_of_reorderEntries {entries others : Entries Document} {names : List String}
    (hn : (Entries.names entries).Nodup) (h : reorderEntries path entries names = .ok others) :
    Reordered (.mapping entries) (.mapping others) :=
  .mapping rfl (List.forall₂_same.2 fun entry _ => .refl entry) (reorderEntries_spec hn h).1.symm

/-- **Reordering replaces a mapping by the rebuilt one.** -/
theorem reorder_eq_ok_iff {entries : Entries Document} {names : List String} {after : Document}
    (hd : document.IsProper) (hg : navigator.get document path = .ok (.mapping entries)) :
    navigator.reorder document path names = .ok after ↔
      ∃ others, reorderEntries path entries names = .ok others ∧
        navigator.replaceAt document path (.mapping others) = after := by
  have hn := nodup_names_of_get hd.names hg
  rw [reorder, mappingAt_of_get hg]
  change (reorderEntries path entries names).bind _ = _ ↔ _
  cases h : reorderEntries path entries names with
  | error error => simp [Except.bind]
  | ok others =>
      have htwin := hasTwinAt_of_reordered hd hg (reordered_of_reorderEntries hn h)
      change navigator.set document path (.value (.mapping others)) = .ok after ↔ _
      rw [set_eq_replaceAt hg htwin]
      simp

/-- **Reordering by the same names again changes nothing.** -/
theorem reorder_again (hn : navigator.GoesByOutline) {entries : Entries Document}
    {names : List String} {after : Document} (hd : document.IsProper)
    (hg : navigator.get document path = .ok (.mapping entries))
    (h : navigator.reorder document path names = .ok after) :
    navigator.reorder after path names = .ok after := by
  obtain ⟨others, hothers, rfl⟩ := (reorder_eq_ok_iff hd hg).1 h
  have hnames := nodup_names_of_get hd.names hg
  -- a second reordering finds its own result, which has no twin
  have htwin := hasTwinAt_of_reordered hd hg (reordered_of_reorderEntries hnames hothers)
  rw [reorder, mappingAt_of_get (get_replaceAt hn hg _)]
  change (reorderEntries path others names).bind _ = _
  rw [reorderEntries_again hnames hothers]
  exact set_replaceAt hn hg htwin _

/-- With the standard accessors or none reordering by the same names again changes nothing. -/
theorem IsStandard.reorder_again (hn : navigator.IsStandard) {entries : Entries Document}
    {names : List String} {after : Document} (hd : document.IsProper)
    (hg : navigator.get document path = .ok (.mapping entries))
    (h : navigator.reorder document path names = .ok after) :
    navigator.reorder after path names = .ok after :=
  Navigator.reorder_again hn.goesByOutline hd hg h

/-- **Listed entries come first, and nothing else changes.** Let a path lead to a mapping of a
document without `NaN` whose sets hold no two equal members. Reordering the mapping by a list of
names succeeds exactly if all of them are its names. The document that it gives equals the old one;
the mapping has the same entries, the listed ones first in the order of their first mention and the
others in their order, and nothing else in the document changes. Reordering by the same names again
changes nothing, for a navigator that goes by the outlines of nodes. -/
theorem reorder_listedFirst {entries : Entries Document} (hd : document.IsProper)
    (hn : document.nanFree = true)
    (hg : navigator.get document path = .ok (.mapping entries)) (names : List String) :
    ((∃ after, navigator.reorder document path names = .ok after) ↔
      ∀ name ∈ names, name ∈ Entries.names entries) ∧
    ∀ after, navigator.reorder document path names = .ok after →
      Reordered document after ∧ (after == document) = true ∧
      (∃ address others, navigator.address document path = some address ∧
        Document.ReplacedAt document after address (.mapping entries) (.mapping others) ∧
        others.Perm entries ∧
        Entries.names others =
          names.eraseDups ++ (Entries.names entries).filter (· ∉ names)) ∧
      (navigator.GoesByOutline → navigator.reorder after path names = .ok after) := by
  have hnames := nodup_names_of_get hd.names hg
  constructor
  · -- only the list of names can make a reordering fail
    rw [← exists_reorderEntries_iff path]
    simp only [reorder_eq_ok_iff hd hg]
    constructor
    · rintro ⟨_, others, hothers, -⟩
      exact ⟨others, hothers⟩
    · rintro ⟨others, hothers⟩
      exact ⟨_, others, hothers, rfl⟩
  · intro after hafter
    obtain ⟨others, hothers, rfl⟩ := (reorder_eq_ok_iff hd hg).1 hafter
    obtain ⟨hperm, hlisted⟩ := reorderEntries_spec hnames hothers
    have hreordered := reordered_replaceAt hg (reordered_of_reorderEntries hnames hothers)
    have hbeq := hreordered.beq hd.names hn
    have hnames' := hreordered.namesDistinct hd.names
    obtain ⟨address, haddress, hreplaced⟩ := replacedAt_replaceAt hd.names hg (.mapping others)
    refine ⟨hreordered, ?_, ⟨address, others, haddress, hreplaced, hperm, hlisted⟩,
      fun hnav => reorder_again hnav hd hg hafter⟩
    rw [← Document.beq_comm hd.names hnames', hbeq]

/-- A mapping in a set beside one that differs from it in a value, with a name listed twice. -/
theorem reorder_listedFirst_of_member :
    let entries : Entries Document := [("a", .int 1), ("b", .int 2), ("c", .int 3)]
    let other : Document := .mapping [("c", .int 3), ("a", .int 1), ("b", .int 4)]
    let document : Document := .set [.mapping entries, other]
    let after : Document :=
      .set [.mapping [("c", .int 3), ("a", .int 1), ("b", .int 2)], other]
    document.IsProper ∧ document.nanFree = true ∧
      standard.get document [.index 0] = .ok (.mapping entries) ∧
      standard.reorder document [.index 0] ["c", "a", "c"] = .ok after ∧
      (after == document) = true ∧
      standard.reorder after [.index 0] ["c", "a", "c"] = .ok after := by
  intro entries other document after
  have hd : document.IsProper := ⟨by decide, by decide⟩
  have hn : document.nanFree = true := by decide
  have hg : standard.get document [.index 0] = .ok (.mapping entries) := by rfl
  have hafter : standard.reorder document [.index 0] ["c", "a", "c"] = .ok after := by rfl
  obtain ⟨-, hresult⟩ := reorder_listedFirst hd hn hg ["c", "a", "c"]
  obtain ⟨-, hbeq, -, hagain⟩ := hresult after hafter
  exact ⟨hd, hn, hg, hafter, hbeq, hagain (IsStandard.goesByOutline (Or.inl rfl))⟩

end Navigator

end PathDoc
