import PathDoc.Proofs.Match.Stretches
import PathDoc.Proofs.Regex.Escaped

/-!
# Literal strategies

Under a strategy that looks for the pattern as it is, the compiled program is the one of an escaped
text (`TextMatcher.exists_program_of_compile`), so it finds the pattern wherever it stands and the
strategy allows it (`TextMatcher.isMatch_literal_iff`). That makes the strategies tests for
equality, a prefix, a suffix and a substring. With a pattern that is not empty the search reports
its leftmost occurrences without overlap (`TextMatcher.leftmostFrom_spans`): each is the first one
after the end of the last.
-/

set_option autoImplicit false

namespace PathDoc.Match

open Text

/-! ## Occurrences of a text -/

/-- A text stands in another one after some characters. -/
def StandsAt (pattern text : List Char) (position : Nat) : Prop :=
  ∃ before after, text = before ++ pattern ++ after ∧ before.length = position

/-- The leftmost occurrences of a pattern from a position on: the first one, and then those from its
end on. -/
inductive LeftmostFrom (pattern text : List Char) : Nat → List Span → Prop
  | done {position : Nat} (nowhere : ∀ p, position ≤ p → ¬ StandsAt pattern text p) :
      LeftmostFrom pattern text position []
  | next {position p : Nat} {spans : List Span} (ahead : position ≤ p)
      (stands : StandsAt pattern text p)
      (first : ∀ q, position ≤ q → q < p → ¬ StandsAt pattern text q)
      (rest : LeftmostFrom pattern text (p + pattern.length) spans) :
      LeftmostFrom pattern text position (⟨p, p + pattern.length⟩ :: spans)

/-- **Occurrences in order that leave none out are the leftmost ones**: every occurrence starts
inside one of them. -/
theorem leftmostFrom_of_covering {pattern text : List Char} {position : Nat} {spans : List Span}
    (hstands : ∀ span ∈ spans, position ≤ span.start ∧ StandsAt pattern text span.start ∧
      span.stop = span.start + pattern.length)
    (hordered : spans.Pairwise fun a b => a.stop ≤ b.start)
    (hcovers : ∀ p, position ≤ p → StandsAt pattern text p →
      ∃ span ∈ spans, span.start ≤ p ∧ p < span.stop) :
    LeftmostFrom pattern text position spans := by
  induction spans generalizing position with
  | nil =>
      apply LeftmostFrom.done
      intro p hp hs
      obtain ⟨span, hm, -⟩ := hcovers p hp hs
      cases hm
  | cons span spans ih =>
      obtain ⟨⟨hahead, hspan, hstop⟩, hrest⟩ := List.forall_mem_cons.1 hstands
      obtain ⟨hafter, htail⟩ := List.pairwise_cons.1 hordered
      -- the end of an occurrence is its start and the length of the pattern
      have hstretch : span = ⟨span.start, span.start + pattern.length⟩ := by
        rw [← hstop]
      rw [hstretch]
      refine .next hahead hspan ?_ (ih ?_ htail ?_)
      · -- no occurrence before the first one, since it would start inside another
        intro q hq hlt hs
        obtain ⟨found, hm, hle, -⟩ := hcovers q hq hs
        rcases List.mem_cons.1 hm with rfl | hm
        · omega
        · have hfound := hafter found hm
          omega
      · intro found hm
        obtain ⟨-, hfound⟩ := hrest found hm
        exact ⟨hstop ▸ hafter found hm, hfound⟩
      · -- what starts behind the first one is not inside it
        intro p hp hs
        obtain ⟨found, hm, hle, hlt⟩ := hcovers p (by omega) hs
        rcases List.mem_cons.1 hm with rfl | hm
        · omega
        · exact ⟨found, hm, hle, hlt⟩

/-! ## Literal strategies -/

namespace Strategy

/-- Whether a strategy looks for the pattern as it is. -/
def isLiteral : Strategy → Bool
  | regex => false
  | fuzzy => false
  | _ => true

/-- Whether the pattern must stand at the start of a candidate. -/
def atStart : Strategy → Bool
  | exact => true
  | beginning => true
  | _ => false

/-- Whether the pattern must stand at the end of a candidate. -/
def atEnd : Strategy → Bool
  | exact => true
  | ending => true
  | _ => false

end Strategy

namespace TextMatcher

/-- The pattern of a literal strategy is compiled from its escaped text. -/
theorem expression_literal {strategy : Strategy} (h : strategy.isLiteral = true)
    (pattern : List Char) :
    expression pattern strategy =
      Regex.literalSource strategy.atStart strategy.atEnd pattern := by
  cases strategy with
  | exact => rfl
  | beginning => exact (List.append_nil _).symm
  | ending => rfl
  | contains => exact (List.append_nil _).symm
  | regex => cases h
  | fuzzy => cases h

/-- **The program of a literal strategy is the one of the escaped pattern.** It has no groups, so
the whole match counts. -/
theorem exists_program_of_compile {pattern : String} {strategy : Strategy}
    {maxDistance : Option Nat} {threshold : Option Float} {matcher : TextMatcher}
    (hliteral : strategy.isLiteral = true)
    (h : compile pattern ⟨strategy, false, none, maxDistance, threshold⟩ = .ok matcher) :
    ∃ program : Regex.Program, matcher = .regex program.finder.searcher 0 ∧
      program.code.toList =
        Regex.literalCode strategy.atStart strategy.atEnd pattern.toList := by
  -- all strategies but the fuzzy one compile an expression
  have hcompile : compile pattern ⟨strategy, false, none, maxDistance, threshold⟩ =
      ((Regex.parse false (expression pattern.toList strategy)).mapError fun fault =>
        .invalidPattern (pattern ++ ": " ++ fault.message)).bind fun parsed =>
          (groupOf pattern parsed.groupCount none).map fun group =>
            .regex parsed.finder.searcher group := by
    cases strategy with
    | fuzzy => cases hliteral
    | _ =>
        cases hp : Regex.parse false (expression pattern.toList _) <;>
          simp only [compile, hp, Except.mapError, Except.bind]
  rw [hcompile, expression_literal hliteral] at h
  cases hp : Regex.parse false
      (Regex.literalSource strategy.atStart strategy.atEnd pattern.toList) with
  | error fault =>
      rw [hp] at h
      cases h
  | ok parsed =>
      rw [hp] at h
      obtain rfl := Regex.eq_literal_of_parse hp
      rw [Except.mapError, Except.bind, Regex.groupCount_literal] at h
      cases h
      exact ⟨.ofPattern _, rfl, Regex.toList_code_literal⟩

section

variable {program : Regex.Program} {strategy : Strategy} {pattern text : List Char}

/-- **A text matches exactly if the pattern stands in it where the strategy allows it.** -/
theorem isMatch_literal_iff
    (h : program.code.toList = Regex.literalCode strategy.atStart strategy.atEnd pattern) :
    isMatch (.regex program.finder.searcher 0) text = true ↔
      ∃ before after, text = before ++ pattern ++ after ∧
      (strategy.atStart = true → before = []) ∧ (strategy.atEnd = true → after = []) := by
  rw [isMatch, Finder.searcher, Finder.hits_iff]
  constructor
  · rintro ⟨before, rest, rfl, hf⟩
    obtain ⟨hit, hf⟩ := Option.isSome_iff_exists.1 hf
    obtain ⟨⟨after, rfl, hedges⟩, -⟩ := (Regex.Program.finder_literal_eq_some_iff h).1 hf
    exact ⟨before, after, (List.append_assoc _ _ _).symm, hedges⟩
  · rintro ⟨before, after, rfl, hedges⟩
    refine ⟨before, pattern ++ after, List.append_assoc _ _ _, ?_⟩
    apply Option.isSome_iff_exists.2
    exact ⟨_, (Regex.Program.finder_literal_eq_some_iff h).2 ⟨⟨after, rfl, hedges⟩, rfl⟩⟩

/-- **What is reported of a pattern that may stand anywhere are its leftmost occurrences.** -/
theorem leftmostFrom_spans (h : program.code.toList = Regex.literalCode false false pattern)
    (hp : pattern ≠ []) (text : List Char) :
    LeftmostFrom pattern text 0 (spans (.regex program.finder.searcher 0) text) := by
  have hpos : 0 < pattern.length := List.length_pos_iff.2 hp
  have hlawful : Lawful (.regex program.finder.searcher 0) := program.finder_proper.lawful
  refine leftmostFrom_of_covering ?_ (pairwise_spans hlawful text) ?_
  · intro span hm
    obtain ⟨hit, hhit, ⟨⟩⟩ := List.mem_filterMap.1 hm
    obtain ⟨before, rest, rfl, hf⟩ := Finder.exists_place_of_mem_all hhit
    obtain ⟨⟨after, rfl, -⟩, rfl⟩ := (Regex.Program.finder_literal_eq_some_iff h).1 hf
    exact ⟨Nat.zero_le _, ⟨before, after, (List.append_assoc _ _ _).symm, rfl⟩, rfl⟩
  · rintro p - ⟨before, after, rfl, rfl⟩
    have hf : program.finder (.between before (pattern ++ after)) =
        some ⟨⟨before.length, before.length + pattern.length⟩, []⟩ :=
      (Regex.Program.finder_literal_eq_some_iff h).2 ⟨⟨after, rfl, nofun, nofun⟩, rfl⟩
    obtain ⟨found, hm, hcover⟩ := Finder.exists_mem_all_covering program.finder_proper.anchored hf
      (Nat.lt_add_of_pos_right hpos)
    rw [← List.append_assoc] at hm
    exact ⟨found.span, List.mem_filterMap.2 ⟨found, hm, rfl⟩, hcover⟩

end

/-- **Literal strategies are string operations.** A pattern that is compiled without case variants
and groups matches a candidate if the candidate equals it, starts with it, ends with it or contains
it, whatever characters it consists of. If it may stand anywhere and is not empty, the reported
stretches are its leftmost occurrences without overlap. -/
theorem matches_of_compile {pattern : String} {strategy : Strategy} {maxDistance : Option Nat}
    {threshold : Option Float} {matcher : TextMatcher}
    (h : compile pattern ⟨strategy, false, none, maxDistance, threshold⟩ = .ok matcher)
    (candidate : String) :
    (strategy = .exact → (matcher.isMatch candidate.toList = true ↔ candidate = pattern)) ∧
    (strategy = .beginning →
      (matcher.isMatch candidate.toList = true ↔ pattern.toList <+: candidate.toList)) ∧
    (strategy = .ending →
      (matcher.isMatch candidate.toList = true ↔ pattern.toList <:+ candidate.toList)) ∧
    (strategy = .contains →
      (matcher.isMatch candidate.toList = true ↔ pattern.toList <:+: candidate.toList)) ∧
    (strategy = .contains → pattern ≠ "" →
      LeftmostFrom pattern.toList candidate.toList 0 (matcher.spans candidate.toList)) := by
  refine ⟨?_, ?_, ?_, ?_, ?_⟩
  · -- each strategy fixes which side of the occurrence is empty
    rintro rfl
    obtain ⟨program, rfl, hcode⟩ := exists_program_of_compile rfl h
    rw [isMatch_literal_iff hcode, ← String.toList_inj]
    constructor
    · rintro ⟨before, after, hsplit, hstart, hend⟩
      rw [hsplit, hstart rfl, hend rfl, List.append_nil, List.nil_append]
    · intro heq
      refine ⟨[], [], ?_, fun _ => rfl, fun _ => rfl⟩
      rw [heq, List.append_nil, List.nil_append]
  · rintro rfl
    obtain ⟨program, rfl, hcode⟩ := exists_program_of_compile rfl h
    rw [isMatch_literal_iff hcode]
    constructor
    · rintro ⟨before, after, hsplit, hstart, -⟩
      rw [hsplit, hstart rfl]
      exact List.prefix_append _ _
    · rintro ⟨after, hsplit⟩
      exact ⟨[], after, hsplit.symm, fun _ => rfl, nofun⟩
  · rintro rfl
    obtain ⟨program, rfl, hcode⟩ := exists_program_of_compile rfl h
    rw [isMatch_literal_iff hcode]
    constructor
    · rintro ⟨before, after, hsplit, -, hend⟩
      rw [hsplit, hend rfl, List.append_nil]
      exact List.suffix_append _ _
    · rintro ⟨before, hsplit⟩
      refine ⟨before, [], ?_, nofun, fun _ => rfl⟩
      rw [hsplit, List.append_nil]
  · rintro rfl
    obtain ⟨program, rfl, hcode⟩ := exists_program_of_compile rfl h
    rw [isMatch_literal_iff hcode]
    constructor
    · rintro ⟨before, after, hsplit, -⟩
      exact ⟨before, after, hsplit.symm⟩
    · rintro ⟨before, after, hsplit⟩
      exact ⟨before, after, hsplit.symm, nofun, nofun⟩
  · rintro rfl hne
    obtain ⟨program, rfl, hcode⟩ := exists_program_of_compile rfl h
    apply leftmostFrom_spans hcode
    rwa [Ne, String.toList_eq_nil_iff]

/-- A pattern of characters that mean something else in a regular expression. -/
theorem matches_of_compile_operators :
    ∃ matcher, compile "(.*\n)^é$" ⟨.contains, false, none, none, none⟩ = .ok matcher ∧
      LeftmostFrom "(.*\n)^é$".toList "x(.*\n)^é$(.*\n)^é$".toList 0
        (matcher.spans "x(.*\n)^é$(.*\n)^é$".toList) :=
  ⟨_, rfl, (matches_of_compile rfl "x(.*\n)^é$(.*\n)^é$").2.2.2.2 rfl (by decide)⟩

end TextMatcher

end PathDoc.Match
