import PathDoc.Path.Surface
import PathDoc.Proofs.Path.Grammar

/-!
# Joined paths

Only the first segment of a path text may lack a separator. With a dot put in front of it where it
does (`dotted`) a text is a chain of segments, and whichever of the two readers takes the text, it
reads that chain (`parse_eq_ok_iff_segments`). Chains can be put one behind the other
(`Segments.append`), and the text that two texts are joined to is the chain of the one and then the
chain of the other (`dotted_joinTexts`). Joining two written forms therefore gives a form of the one
path followed by the other (`resolve_combine`).
-/

set_option autoImplicit false

namespace PathDoc

namespace Path

/-- A text with a dot in front of a first segment that has no separator of its own. -/
def dotted : List Char → List Char
  | [] => []
  | c :: rest => if c = '.' ∨ c = '[' then c :: rest else '.' :: c :: rest

theorem dotted_of_separator {c : Char} (hc : c = '.' ∨ c = '[') (rest : List Char) :
    dotted (c :: rest) = c :: rest :=
  if_pos hc

theorem dotted_of_bare {c : Char} (hc : ¬ (c = '.' ∨ c = '[')) (rest : List Char) :
    dotted (c :: rest) = '.' :: c :: rest :=
  if_neg hc

/-- A text that is empty or begins with a separator is left as it is. -/
theorem dotted_of_atSeparator {text : List Char} (h : AtSeparator text) : dotted text = text := by
  cases text with
  | nil => rfl
  | cons c rest => exact dotted_of_separator (h c rfl) rest

/-- What follows the first character does not matter to the dot in front of it. -/
theorem dotted_append {left : List Char} (hne : left ≠ []) (right : List Char) :
    dotted (left ++ right) = dotted left ++ right := by
  obtain ⟨c, rest, rfl⟩ := List.exists_cons_of_ne_nil hne
  rw [List.cons_append]
  by_cases hc : c = '.' ∨ c = '['
  · rw [dotted_of_separator hc, dotted_of_separator hc, List.cons_append]
  · rw [dotted_of_bare hc, dotted_of_bare hc, List.cons_append, List.cons_append]

theorem scan_eq_scanTail {text : List Char} (hne : text ≠ []) :
    scan text = scanTail (dotted text) := by
  obtain ⟨c, rest, rfl⟩ := List.exists_cons_of_ne_nil hne
  by_cases hc : c = '.' ∨ c = '['
  · rw [dotted_of_separator hc]
    rcases hc with rfl | rfl <;> rfl
  · rw [dotted_of_bare hc]
    apply scan_bare
    intro first hfirst
    cases hfirst
    exact not_or.1 hc

/-- **Both readers read the chain of segments that a text is with its separators.** -/
theorem parseChars_eq_scanTail (text : List Char) : parseChars text = scanTail (dotted text) := by
  unfold parseChars
  split
  · rename_i hnil
    rw [hnil, dotted, scanTail]
  · rename_i hne
    rw [← scan_eq_scanTail hne]
    -- without brackets and quotes the text is split, which comes to the same as scanning it
    split
    · rfl
    · rename_i hb
      exact splitDotted_eq_scan (Bool.not_eq_true _ ▸ hb)

/-- **A text denotes a path exactly if its chain does.** -/
theorem parse_eq_ok_iff_segments {text : String} {path : Path} :
    parse text = .ok path ↔ Segments (dotted text.toList) path := by
  rw [parse_eq_ok_iff_parseChars, parseChars_eq_scanTail, scanTail_eq_ok_iff]

/-- **Chains of segments can be put one behind the other.** -/
theorem Segments.append {a b : List Char} {p q : Path} (ha : Segments a p) (hb : Segments b q) :
    Segments (a ++ b) (p ++ q) := by
  induction ha with
  | nil => exact hb
  | @cons text more token path first _ ih =>
      rw [List.append_assoc, List.cons_append]
      exact .cons first ih

end Path

namespace Surface

open PathDoc.Path

/-- The text of two joined texts that are not empty. The second one keeps its own separator or gets
the dot that its chain begins with. -/
theorem toList_joinTexts {left right : String} (hl : left ≠ "") (hr : right ≠ "") :
    (joinTexts left right).toList = left.toList ++ dotted right.toList := by
  rw [joinTexts, if_neg (mt String.isEmpty_iff.1 hl), if_neg (mt String.isEmpty_iff.1 hr)]
  split
  · rename_i rest hright
    rw [String.toList_append, hright, dotted_of_separator (Or.inr rfl)]
  · rename_i rest hright
    rw [String.toList_append, hright, dotted_of_separator (Or.inl rfl)]
  · rename_i hbracket hdot
    -- the second text begins with a bare segment and gets the dot of its chain
    obtain ⟨c, rest, hright⟩ := List.exists_cons_of_ne_nil (mt String.toList_eq_nil_iff.1 hr)
    have hc : ¬ (c = '.' ∨ c = '[') := by
      rintro (rfl | rfl)
      · exact hdot rest hright
      · exact hbracket rest hright
    rw [String.toList_append, String.toList_append, List.append_assoc, hright, dotted_of_bare hc]
    rfl

/-- **The chain of two joined texts is the chain of the first and then that of the second.** -/
theorem dotted_joinTexts (left right : String) :
    dotted (joinTexts left right).toList = dotted left.toList ++ dotted right.toList := by
  by_cases hl : left = ""
  · rw [hl]
    rfl
  · by_cases hr : right = ""
    · rw [hr, joinTexts, if_neg (mt String.isEmpty_iff.1 hl)]
      exact (List.append_nil _).symm
    · rw [toList_joinTexts hl hr, dotted_append (mt String.toList_eq_nil_iff.1 hl)]

/-- **Joined texts denote the one path followed by the other.** -/
theorem parse_joinTexts {left right : String} {p q : Path} (hl : parse left = .ok p)
    (hr : parse right = .ok q) : parse (joinTexts left right) = .ok (p ++ q) := by
  rw [parse_eq_ok_iff_segments] at hl hr ⊢
  rw [dotted_joinTexts]
  exact hl.append hr

/-- **Joining goes through and denotes the one path followed by the other.** Two forms that denote
paths, be it as nothing, as texts, as single tokens or as lists of tokens, are joined to a form, and
this form denotes the first path followed by the second one. -/
theorem resolve_combine {a b : Surface} {p q : Path} (ha : a.resolve = .ok p)
    (hb : b.resolve = .ok q) :
    ∃ joined, a.combine b = .ok joined ∧ joined.resolve = .ok (p ++ q) := by
  unfold combine
  split
  · rename_i left right
    exact ⟨_, rfl, parse_joinTexts ha hb⟩
  · rw [ha, hb]
    exact ⟨_, rfl, rfl⟩

/-- A text with a quoted name, which is scanned, is joined to a text without, which is split. -/
theorem resolve_combine_quoted :
    let a : Surface := .text "a['.']"
    let b : Surface := .text "0.c"
    a.resolve = .ok [.key "a", .key "."] ∧ b.resolve = .ok [.index 0, .key "c"] ∧
      a.combine b = .ok (.text "a['.'].0.c") ∧
      ∃ joined, a.combine b = .ok joined ∧
        joined.resolve = .ok [.key "a", .key ".", .index 0, .key "c"] := by
  intro a b
  have ha : a.resolve = .ok [.key "a", .key "."] := by
    apply parse_eq_ok_iff_segments.2
    have hname : Bare ['a'] (.key "a") :=
      bare_iff.2 ⟨List.cons_ne_nil _ _, List.forall_mem_singleton.2 rfl, rfl⟩
    -- the quotes keep the dot inside one name
    have hquoted : Quoted '\'' ['.'] ['.'] := .plain (by decide) (by decide) .nil
    exact .cons (.dotted hname) (.cons (.bracketed (.name (Or.inl rfl) hquoted)) .nil)
  have hb : b.resolve = .ok [.index 0, .key "c"] := by
    apply parse_eq_ok_iff_segments.2
    have hposition : Bare ['0'] (.index 0) :=
      bare_iff.2 ⟨List.cons_ne_nil _ _, List.forall_mem_singleton.2 rfl, rfl⟩
    have hname : Bare ['c'] (.key "c") :=
      bare_iff.2 ⟨List.cons_ne_nil _ _, List.forall_mem_singleton.2 rfl, rfl⟩
    exact .cons (.dotted hposition) (.cons (.dotted hname) .nil)
  exact ⟨ha, hb, rfl, resolve_combine ha hb⟩

end Surface

end PathDoc
