import PathDoc.Proofs.Path.Joined
import PathDoc.Proofs.Query.Variable

/-!
# Paths in queries and paths of their own

The path behind a variable is read by other rules than the text of a path. A name may hold fewer
characters, digits that do not fit a word are refused instead of being taken as a name, and blanks
may stand in brackets. Still both readers take the same front of a text where both go on: what is a
name to the one is a bare segment to the other and has the same token (`NameToken.bare`), and what
stands in brackets is the same content (`readBracket_of_scanBracket`). Step by step they therefore
come to the same path (`Steps.eq_of_scanTail`), and a text that both read whole has one meaning
(`notations_agree`).
-/

set_option autoImplicit false

namespace PathDoc.Query

open Decimal (isDigits_iff)

/-! ## Single steps -/

/-- The characters of names are no separators, brackets or quotes. -/
theorem not_mem_reserved_of_isIdentifierChar {c : Char} (h : Text.isIdentifierChar c = true) :
    c ∉ Path.reserved := by
  have hnone : Path.reserved.all (fun c => !Text.isIdentifierChar c) = true := by decide +kernel
  intro hc
  have hnot := List.all_eq_true.1 hnone c hc
  rw [h] at hnot
  cases hnot

/-- **A name is a bare segment with the same token.** -/
theorem NameToken.bare {name : List Char} {token : Token} (h : NameToken name token) :
    Path.Bare name token := by
  obtain ⟨hne, hchars⟩ := h.chars
  cases h with
  | position digits fits => exact .position digits fits
  | key _ other =>
      refine .name hne (fun c hc => not_mem_reserved_of_isIdentifierChar (hchars c hc)) ?_
      -- not all of its characters are digits
      intro hdigits
      obtain ⟨c, hc, hnot⟩ := other
      cases hnot.symm.trans ((isDigits_iff.1 hdigits).2 c hc)

/-- **A bracket without blanks is read alike.** -/
theorem readBracket_of_scanBracket {inside rest : List Char} {token : Token}
    (h : Path.scanBracket inside = .ok (token, rest)) : readBracket inside = .ok (token, rest) := by
  obtain ⟨content, rfl, hcontent⟩ := Path.scanBracket_eq_ok_iff.1 h
  exact readBracket_eq_ok_iff.2 ⟨content, ']' :: rest, .none _, hcontent, .none _⟩

/-- A chain that begins with a bracket goes on behind it. -/
theorem exists_scanBracket_of_scanTail {inside : List Char} {path : Path}
    (h : Path.scanTail ('[' :: inside) = .ok path) :
    ∃ token rest more, Path.scanBracket inside = .ok (token, rest) ∧
      Path.scanTail rest = .ok more ∧ path = token :: more := by
  rw [Path.scanTail] at h
  split at h
  · rename_i token rest hread
    obtain ⟨more, hmore, rfl⟩ := map_eq_ok_iff.1 h
    exact ⟨token, rest, more, hread, hmore, rfl⟩
  · cases h

/-! ## Whole texts -/

/-- Steps to the end of a text begin with a separator. -/
theorem Steps.atSeparator {input : List Char} {path : Path} (h : Steps input path []) :
    Path.AtSeparator input := by
  intro c hc
  cases h with
  | nil => cases hc
  | name =>
      cases hc
      exact Or.inl rfl
  | bracket =>
      cases hc
      exact Or.inr rfl

/-- **Steps to the end of a text are its segments.** -/
theorem Steps.eq_of_scanTail {input rest : List Char} {path other : Path}
    (h : Steps input path rest) (hr : rest = []) (hs : Path.scanTail input = .ok other) :
    path = other := by
  -- induction on the steps; both readers take the same front away and go on with the same rest
  induction h generalizing other with
  | nil =>
      rw [hr, Path.scanTail] at hs
      exact Except.ok.inj hs
  | name spelled _ more ih =>
      subst hr
      have hread := Path.scanBare_eq_ok_iff.2 ⟨_, rfl, spelled.bare, more.atSeparator⟩
      rw [Path.scanTail_of_bare hread] at hs
      obtain ⟨tail, htail, rfl⟩ := map_eq_ok_iff.1 hs
      rw [ih rfl htail]
  | bracket opening spelled closed _ ih =>
      obtain ⟨token, after, tail, hread, htail, rfl⟩ := exists_scanBracket_of_scanTail hs
      have hbracket := readBracket_eq_ok_iff.2 ⟨_, _, opening, spelled, closed⟩
      obtain ⟨rfl, rfl⟩ :=
        Prod.mk.inj (Except.ok.inj (hbracket.symm.trans (readBracket_of_scanBracket hread)))
      rw [ih hr htail]

/-! ## Blanks at the end -/

theorem Skips.isSuffix {text rest : List Char} (h : Skips text rest) : rest <:+ text := by
  induction h with
  | none text => exact List.suffix_refl text
  | blank _ _ ih => exact ih.trans (List.suffix_cons _ _)

theorem Steps.isSuffix {input rest : List Char} {path : Path} (h : Steps input path rest) :
    rest <:+ input := by
  induction h with
  | nil rest => exact List.suffix_refl rest
  | name _ _ _ ih => exact (ih.trans (List.suffix_append _ _)).trans (List.suffix_cons _ _)
  | bracket opening _ closed _ ih =>
      have hclosing := (ih.trans (List.suffix_cons _ _)).trans closed.isSuffix
      have hinside := (hclosing.trans (List.suffix_append _ _)).trans opening.isSuffix
      exact hinside.trans (List.suffix_cons _ _)

/-- A text that is all skipped ends in a blank. -/
theorem Skips.isBlank_of_getLast? {text : List Char} (h : Skips text []) {c : Char}
    (hc : c ∈ text.getLast?) : Text.isBlank c = true := by
  generalize hr : [] = rest at h
  induction h with
  | none text =>
      subst hr
      cases hc
  | @blank first text rest hfirst more ih =>
      cases text with
      | nil =>
          cases hc
          exact hfirst
      | cons second text =>
          rw [List.getLast?_cons_cons] at hc
          exact ih hc hr

/-- Nothing is skipped at the end of a text that does not end in a blank. -/
theorem eq_nil_of_skips {text rest : List Char} (hs : rest <:+ text) (hr : Skips rest [])
    (hl : ∀ c ∈ text.getLast?, Text.isBlank c = false) : rest = [] := by
  by_contra hne
  obtain ⟨front, rfl⟩ := hs
  have hlast := List.getLast?_eq_some_getLast hne
  have hmem : rest.getLast hne ∈ (front ++ rest).getLast? := by
    rw [List.getLast?_append, hlast]
    rfl
  cases (hl _ hmem).symm.trans (hr.isBlank_of_getLast? hlast)

/-- **A path has one meaning in both notations.** If a text that does not end in a blank is read as
the path behind a variable and as a path of its own, both are the same path. -/
theorem notations_agree {identifier text name : String} {path other : Path}
    (hv : IsVariable identifier) (ht : Path.AtSeparator text.toList)
    (hl : ∀ c ∈ text.toList.getLast?, Text.isBlank c = false)
    (hq : parse (identifier ++ text) = .ok (.lookup name path)) (hp : Path.parse text = .ok other) :
    path = other := by
  have hbreaks : BreaksName text.toList := by
    rw [← List.append_nil text.toList]
    exact breaksName_append ht breaksName_nil
  rw [parse_eq_ok_iff_chars, parseChars_eq_ok_iff, String.toList_append] at hq
  obtain ⟨-, rest, hsteps, hskips⟩ := (spells_lookup_iff hv hbreaks).1 hq
  have hnil : rest = [] := eq_nil_of_skips hsteps.isSuffix hskips hl
  rw [Path.parse_eq_ok_iff_parseChars, Path.parseChars_eq_scanTail,
    Path.dotted_of_atSeparator ht] at hp
  exact hsteps.eq_of_scanTail hnil hp

set_option maxRecDepth 20000 in
/-- A name, a position and a quoted name behind one another, read by both. -/
theorem notations_agree_mixed :
    ∃ path other : Path, parse ("d" ++ ".a[0]['x.y']") = .ok (.lookup "d" path) ∧
      Path.parse ".a[0]['x.y']" = .ok other ∧ path = other := by
  let path : Path := [.key "a", .index 0, .key "x.y"]
  have hq : parse ("d" ++ ".a[0]['x.y']") = .ok (.lookup "d" path) := rfl
  have hp : Path.parse ".a[0]['x.y']" = .ok path := by
    -- the scanner is not evaluated: the grammar says what it reads
    apply Path.parse_eq_ok_iff_segments.2
    have hname : Path.Bare ['a'] (.key "a") :=
      Path.bare_iff.2 ⟨List.cons_ne_nil _ _, List.forall_mem_singleton.2 rfl, rfl⟩
    have hposition : Path.Content ['0'] (.index 0) :=
      .position (.natural rfl) (by simp [Path.FitsWord])
    have hquoted : Path.Quoted '\'' ['x', '.', 'y'] ['x', '.', 'y'] :=
      .plain (by decide) (by decide) (.plain (by decide) (by decide)
        (.plain (by decide) (by decide) .nil))
    exact .cons (.dotted hname)
      (.cons (.bracketed hposition) (.cons (.bracketed (.name (Or.inl rfl) hquoted)) .nil))
  refine ⟨path, path, hq, hp, notations_agree ?_ ?_ ?_ hq hp⟩
  · exact ⟨'d', [], rfl, by decide, List.forall_mem_nil _, by simp [constants]⟩
  · intro c hc
    cases hc
    exact Or.inl rfl
  · intro c hc
    cases hc
    rfl

set_option maxRecDepth 20000 in
/-- A blank at the end belongs to the name in the text of a path, but not in a query. -/
example : parse "d.a " = .ok (.lookup "d" [.key "a"]) ∧ Path.parse ".a " = .ok [.key "a "] := by
  refine ⟨rfl, Path.parse_eq_ok_iff_segments.2 ?_⟩
  have hname : Path.Bare ['a', ' '] (.key "a ") :=
    Path.bare_iff.2 ⟨List.cons_ne_nil _ _, List.all_eq_true.1 rfl, rfl⟩
  exact .cons (.dotted hname) .nil

end PathDoc.Query
