import Mathlib
import PathDoc.Proofs.Match.Occurrences
import PathDoc.Proofs.Regex.Captures

/-!
# Stretches that can be cut out

The stretches of a text matcher lie in the text (`TextMatcher.inside_of_mem_spans`) and follow one
another without overlap (`TextMatcher.pairwise_spans`), whether they are whole matches, groups of
matches or approximate occurrences: a group lies in its match, and matches do not overlap. So the
bytes between them can be copied one after the other (`spliced_substitute`), and replacing never
cuts out of order. The answer whether there is a match does not depend on what is reported about it
(`TextMatcher.isMatch_eq`).

Nothing is said about how a regular expression is run. All this holds for any searcher that keeps
the laws of `Searcher.Lawful`, and so for every matcher that is compiled here
(`TextMatcher.lawful_of_compile`).
-/

set_option autoImplicit false

namespace PathDoc.Match

open Text

/-! ## Cutting -/

/-- What stands between two byte offsets of a text. There is such a part only if the offsets are in
order and in the text, and both at the boundaries of characters. -/
def Cut (text : List Char) (range : Nat × Nat) (part : List Char) : Prop :=
  ∃ before after, text = before ++ part ++ after ∧
    range = (byteSize before, byteSize (before ++ part))

/-- A copy of a text from a byte offset on, with a replacement in the place of every range. What
stands before a range is cut out from the end of the range before it. -/
inductive Spliced (text replacement : List Char) : Nat → List (Nat × Nat) → List Char → Prop
  | last {cursor : Nat} {part : List Char} (cut : Cut text (cursor, byteSize text) part) :
      Spliced text replacement cursor [] part
  | next {cursor : Nat} {range : Nat × Nat} {ranges : List (Nat × Nat)} {gap result : List Char}
      (cut : Cut text (cursor, range.1) gap)
      (rest : Spliced text replacement range.2 ranges result) :
      Spliced text replacement cursor (range :: ranges) (gap ++ replacement ++ result)

/-- A stretch of a text can be cut out. -/
theorem cut_excerpt {text : List Char} {span : Span} (h : span.start ≤ span.stop) :
    Cut text (byteRange text span) (excerpt text span) := by
  have hsplit := take_stop_eq text h
  refine ⟨text.take span.start, text.drop span.stop, ?_, ?_⟩
  · rw [← hsplit, List.take_append_drop]
  · rw [byteRange, hsplit]

theorem cut_end (text : List Char) (position : Nat) :
    Cut text (byteSize (text.take position), byteSize text) (text.drop position) :=
  ⟨text.take position, [], by simp, by simp⟩

/-- More characters take more bytes. -/
theorem byteSize_take_lt {text : List Char} {i j : Nat} (hlt : i < j) (hi : i < text.length) :
    byteSize (text.take i) < byteSize (text.take j) := by
  have hsplit : text.take j = text.take i ++ excerpt text ⟨i, j⟩ := @take_stop_eq text ⟨i, j⟩ hlt.le
  have hne : excerpt text ⟨i, j⟩ ≠ [] := by
    apply List.ne_nil_of_length_pos
    rw [excerpt, List.length_drop, List.length_take]
    exact Nat.sub_pos_of_lt (lt_min hlt hi)
  rw [hsplit, byteSize_append]
  exact Nat.lt_add_of_pos_right (byteSize_pos hne)

/-- **Stretches that follow one another are replaced one after the other.** -/
theorem spliced_substitute {text replacement : List Char} {position : Nat} {spans : List Span}
    (hspans : ∀ span ∈ spans, position ≤ span.start ∧ span.start ≤ span.stop)
    (hordered : spans.Pairwise fun a b => a.stop ≤ b.start) :
    Spliced text replacement (byteSize (text.take position)) (spans.map (byteRange text))
      (TextMatcher.substitute replacement position (text.drop position) spans) := by
  induction spans generalizing position with
  | nil => exact .last (cut_end text position)
  | cons span spans ih =>
      obtain ⟨⟨hfree, hspan⟩, hrest⟩ := List.forall_mem_cons.1 hspans
      obtain ⟨hafter, htail⟩ := List.pairwise_cons.1 hordered
      have hgap : (text.drop position).take (span.start - position) =
          excerpt text ⟨position, span.start⟩ := List.drop_take.symm
      have hdrop : (text.drop position).drop (span.stop - position) = text.drop span.stop := by
        rw [List.drop_drop, Nat.add_sub_cancel' (hfree.trans hspan)]
      rw [TextMatcher.substitute, hgap, hdrop]
      refine .next (cut_excerpt hfree) (ih ?_ htail)
      intro other hm
      exact ⟨hafter other hm, (hrest other hm).2⟩

/-! ## The stretches of a matcher -/

namespace TextMatcher

/-- A matcher whose regular expression, if it has one, keeps the laws of searchers. -/
def Lawful : TextMatcher → Prop
  | regex expression _ => expression.Lawful
  | approximate _ _ _ => True

/-- **Compiled matchers are lawful.** -/
theorem lawful_of_compile {pattern : String} {options : TextOptions} {matcher : TextMatcher}
    (h : compile pattern options = .ok matcher) : matcher.Lawful := by
  unfold compile at h
  split at h
  · cases h
    trivial
  · split at h
    · cases h
    · rename_i parsed _
      obtain ⟨group, -, rfl⟩ := map_eq_ok_iff.1 h
      -- the searcher is that of the program of the pattern
      exact (Regex.Program.ofPattern parsed).finder_proper.lawful

variable {matcher : TextMatcher}

/-- **A matched stretch lies in the text.** -/
theorem inside_of_mem_spans (h : matcher.Lawful) {text : List Char} {span : Span}
    (hm : span ∈ matcher.spans text) : span.Inside ⟨0, text.length⟩ := by
  cases matcher with
  | regex expression group =>
      obtain ⟨hit, hhit, hg⟩ := List.mem_filterMap.1 hm
      obtain ⟨-, hle, hstop⟩ := h.inside text hit hhit
      obtain ⟨-, hspan, hlast⟩ := Hit.inside_of_group? hle (h.groups text hit hhit) hg
      exact ⟨Nat.zero_le _, hspan, hlast.trans hstop⟩
  | approximate pattern ignoreCase maxDistance =>
      obtain ⟨found, hfound, rfl⟩ := List.mem_map.1 hm
      obtain ⟨hlt, hstop, -⟩ := isLeast_of_mem_occurrences hfound
      exact ⟨Nat.zero_le _, hlt.le, hstop⟩

/-- **Matched stretches follow one another without overlap.** -/
theorem pairwise_spans (h : matcher.Lawful) (text : List Char) :
    (matcher.spans text).Pairwise fun a b => a.stop ≤ b.start := by
  cases matcher with
  | regex expression group =>
      have hgroup : ∀ hit ∈ expression.all text, ∀ span, hit.group? group = some span →
          span.Inside hit.span := by
        intro hit hhit span hg
        exact Hit.inside_of_group? (h.inside text hit hhit).2.1 (h.groups text hit hhit) hg
      refine List.Pairwise.filterMap _ ?_ (List.Pairwise.and_mem.1 (h.apart text))
      -- groups lie in their hits
      rintro a b ⟨ha, hb, hafter⟩ first hfirst second hsecond
      obtain ⟨-, -, hstop⟩ := hgroup a ha first hfirst
      obtain ⟨hstart, -⟩ := hgroup b hb second hsecond
      exact (hstop.trans hafter).trans hstart
  | approximate pattern ignoreCase maxDistance =>
      exact List.pairwise_map.2 pairwise_occurrences

/-- Whole matches start one after the other, and so do approximate occurrences. -/
theorem pairwise_spans_start (h : matcher.Lawful)
    (hwhole : ∀ expression index, matcher ≠ .regex expression (index + 1)) (text : List Char) :
    (matcher.spans text).Pairwise fun a b => a.start < b.start := by
  cases matcher with
  | regex expression group =>
      cases group with
      | zero =>
          refine List.Pairwise.filterMap _ ?_ (h.leftToRight text)
          rintro a b hlt _ ⟨⟩ _ ⟨⟩
          exact hlt
      | succ index => exact absurd rfl (hwhole expression index)
  | approximate pattern ignoreCase maxDistance =>
      apply List.pairwise_map.2
      apply pairwise_occurrences.imp_of_mem
      intro a b ha _ hafter
      exact (isLeast_of_mem_occurrences ha).1.trans_le hafter

/-- **A text matches exactly if a stretch of it does.** -/
theorem isMatch_eq (h : matcher.Lawful) (text : List Char) :
    matcher.isMatch text = !(matcher.spans text).isEmpty := by
  cases matcher with
  | regex expression group =>
      cases group with
      | zero =>
          -- every hit has a whole stretch
          have hempty : (spans (.regex expression 0) text).isEmpty =
              (expression.all text).isEmpty := by
            rw [spans]
            cases expression.all text <;> rfl
          rw [isMatch, hempty, Bool.eq_iff_iff, h.hits_iff, Bool.not_eq_true',
            List.isEmpty_eq_false_iff]
      | succ index => rfl
  | approximate pattern ignoreCase maxDistance => rfl

/-- Nothing is replaced exactly if nothing matches. -/
theorem replace?_eq_none_iff (h : matcher.Lawful) {text replacement : List Char} :
    matcher.replace? text replacement = none ↔ matcher.isMatch text = false := by
  rw [replace?, isMatch_eq h]
  cases matcher.spans text <;> simp

/-- What is reported tells of a match exactly if there is a stretch to report. -/
theorem isMatch_ofSpans (text : List Char) (spans : List Span) (shape : Shape) :
    (Report.ofSpans text (!spans.isEmpty) spans shape).isMatch = !spans.isEmpty := by
  cases shape with
  | found => rfl
  | offsets => simp [Report.ofSpans, Report.isMatch]
  | ranges => simp [Report.ofSpans, Report.isMatch]
  | texts => simp [Report.ofSpans, Report.isMatch]

/-- **Matched stretches can be cut out and replaced.** Whatever runs the regular expression of a
matcher, if only it keeps the laws of searchers: matched stretches are ranges of bytes between
boundaries of characters, in order and without overlap; no two of them start at the same place
unless they are groups. Replacing fails exactly if nothing matches, and otherwise gives the text
with a replacement in the place of every stretch, each cut starting where the last stretch ended.
What is reported tells of a match exactly if there is one, whatever its shape. -/
theorem spans_spliced {matcher : TextMatcher} (hlawful : matcher.Lawful) (text : List Char) :
    let ranges := (matcher.spans text).map (byteRange text)
    (∀ span ∈ matcher.spans text, Cut text (byteRange text span) (excerpt text span)) ∧
    ranges.Pairwise (fun a b => a.1 ≤ b.1 ∧ a.2 ≤ b.1) ∧
    ((∀ expression index, matcher ≠ .regex expression (index + 1)) →
      ranges.Pairwise fun a b => a.1 < b.1) ∧
    (∀ replacement,
      (matcher.replace? text replacement = none ↔ matcher.isMatch text = false) ∧
      ∀ result, matcher.replace? text replacement = some result →
        Spliced text replacement 0 ranges result) ∧
    ∀ shape, (matcher.report text shape).isMatch = matcher.isMatch text := by
  have hordered := pairwise_spans hlawful text
  refine ⟨?_, ?_, ?_, ?_, ?_⟩
  · intro span hm
    exact cut_excerpt (inside_of_mem_spans hlawful hm).2.1
  · apply List.pairwise_map.2
    apply hordered.imp_of_mem
    -- positions are compared as characters and counted in bytes
    intro a b ha _ hafter
    have hspan := (inside_of_mem_spans hlawful ha).2.1
    exact ⟨byteSize_take_le text (hspan.trans hafter), byteSize_take_le text hafter⟩
  · intro hwhole
    apply List.pairwise_map.2
    apply (pairwise_spans_start hlawful hwhole text).imp_of_mem
    intro a b _ hb hlt
    obtain ⟨-, hspan, hstop⟩ := inside_of_mem_spans hlawful hb
    exact byteSize_take_lt hlt (hlt.trans_le (hspan.trans hstop))
  · intro replacement
    refine ⟨replace?_eq_none_iff hlawful, ?_⟩
    intro result hr
    -- cutting starts at the beginning of the text, where no stretch has ended yet
    have hspliced : Spliced text replacement 0 ((matcher.spans text).map (byteRange text))
        (substitute replacement 0 text (matcher.spans text)) := by
      refine @spliced_substitute text replacement 0 _ ?_ hordered
      intro span hm
      exact ⟨Nat.zero_le _, (inside_of_mem_spans hlawful hm).2.1⟩
    rw [replace?] at hr
    split at hr
    · cases hr
    · cases hr
      exact hspliced
  · intro shape
    rw [report, isMatch_eq hlawful]
    exact isMatch_ofSpans text _ shape

/-- Of the two hits of an expression only the first has the group that counts, and only the stretch
of that group is replaced. -/
theorem spans_spliced_group :
    ∃ matcher, compile "é(b)?" ⟨.regex, false, none, none, none⟩ = .ok matcher ∧
      matcher.Lawful ∧
      matcher.spans "xébyé".toList = [⟨2, 3⟩] ∧
      matcher.replace? "xébyé".toList ['-', '-'] = some "xé--yé".toList ∧
      Spliced "xébyé".toList ['-', '-'] 0 [(3, 4)] "xé--yé".toList ∧
      ∀ shape, (matcher.report "xébyé".toList shape).isMatch = true := by
  obtain ⟨matcher, hcompile⟩ :
      ∃ matcher, compile "é(b)?" ⟨.regex, false, none, none, none⟩ = .ok matcher := ⟨_, rfl⟩
  have hrun : (compile "é(b)?" ⟨.regex, false, none, none, none⟩).map
      (fun matcher => (matcher.spans "xébyé".toList, matcher.isMatch "xébyé".toList,
        matcher.replace? "xébyé".toList ['-', '-'])) =
      .ok ([⟨2, 3⟩], true, some "xé--yé".toList) := by
    cbv
  rw [hcompile, Except.map, Except.ok.injEq, Prod.mk.injEq, Prod.mk.injEq] at hrun
  obtain ⟨hspans, hmatch, hreplaced⟩ := hrun
  have hlawful := lawful_of_compile hcompile
  obtain ⟨-, -, -, hreplace, hreport⟩ := spans_spliced hlawful "xébyé".toList
  have hspliced := (hreplace ['-', '-']).2 _ hreplaced
  rw [hspans] at hspliced
  refine ⟨matcher, hcompile, hlawful, hspans, hreplaced, hspliced, fun shape => ?_⟩
  rw [hreport, hmatch]

end TextMatcher

end PathDoc.Match
