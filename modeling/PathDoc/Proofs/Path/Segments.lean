import PathDoc.Proofs.Path.Grammar

/-!
# The segments between dots

A text without brackets and quotes can be split at its dots or scanned from left to right. The
splitter also keeps the place of every segment, counted in bytes from the sizes of the segments
before it (`readSegments`); the scanner knows its place from what it has not read yet. Both places
are the same (`splitSegments_eq_segmentTokens`), so all three ways of reading give the same tokens,
or the same error at the same byte (`answer_splitDotted`).
-/

set_option autoImplicit false

namespace PathDoc.Path

/-! ## Answers of readers -/

/-- The error of a reader that stopped in a text: the byte at which it stopped, and the fault. -/
def Stop.toError (text : String) (stop : Stop) : Error :=
  .pathSyntax text (Text.offset text.toList stop.rest) stop.fault

/-- The answer of a reader to a text. -/
def answer (reader : List Char → Except Stop Path) (text : String) : Outcome Path :=
  (reader text.toList).mapError (Stop.toError text)

/-- Which of the two readers answers depends on the characters of a text. -/
theorem parse_eq_answer {text : String} (h : text.toList ≠ []) :
    parse text = answer (if hasBrackets text.toList then scan else splitDotted) text := by
  have hread : parseChars text.toList =
      (if hasBrackets text.toList then scan else splitDotted) text.toList := by
    rw [parseChars, if_neg h]
    split <;> rfl
  rw [parse, answer, hread]
  cases (if hasBrackets text.toList then scan else splitDotted) text.toList with
  | ok path => rfl
  | error stop => rfl

/-- The byte at which a reader stopped is the size of what it has read. -/
theorem toError_of_split {text : String} {read rest : List Char} (h : text.toList = read ++ rest)
    (fault : PathFault) :
    Stop.toError text ⟨rest, fault⟩ = .pathSyntax text (Text.byteSize read) fault := by
  rw [Stop.toError, h, Text.offset_append]

/-! ## Places of segments -/

/-- The tokens of segments, the first of which begins at a byte. An empty segment is refused with
the byte at which it would begin; a dot stands between a segment and the next. -/
def segmentTokens (start : Nat) : List (List Char) → Except Nat Path
  | [] => .ok []
  | segment :: rest =>
    if segment = [] then .error start
    else (segmentTokens (start + Text.byteSize segment + 1) rest).map (segmentToken segment :: ·)

/-- The segments between the dots of a text after an optional leading dot, and the byte at which
the first of them begins. -/
def cutAtDots : List Char → Nat × List (List Char)
  | '.' :: text => (1, text.splitOn '.')
  | text => (0, text.splitOn '.')

/-- Reads the segments of a text, counting the bytes of each to know where the next begins. -/
def readSegments (text : String) : Outcome Path :=
  (segmentTokens (cutAtDots text.toList).1 (cutAtDots text.toList).2).mapError
    fun place => .pathSyntax text place .emptySegment

/-! ## Segment by segment -/

theorem splitOn_last {segment : List Char} (h : ∀ c ∈ segment, (c != '.') = true) :
    segment.splitOn '.' = [segment] := by
  refine List.splitOnP_eq_singleton fun c hc => ?_
  simpa [bne] using h c hc

/-- A text with a dot in it is the segment in front of the first dot and the segments behind. -/
theorem splitOn_dot {segment : List Char} (h : ∀ c ∈ segment, (c != '.') = true)
    (rest : List Char) :
    (segment ++ '.' :: rest).splitOn '.' = segment :: rest.splitOn '.' := by
  refine List.splitOnP_append_cons_of_forall_mem (fun c hc => ?_) '.' (by decide) rest
  simpa [bne] using h c hc

/-- **The place of a segment is the size of what stands before it.** The splitter stops in front of
the first empty segment; counting the bytes of the segments before it gives the same place. -/
theorem splitSegments_eq_segmentTokens {text : String} {before rest : List Char}
    (htext : text.toList = before ++ rest) :
    (splitSegments rest).mapError (Stop.toError text) =
      (segmentTokens (Text.byteSize before) (rest.splitOn '.')).mapError
        fun place => .pathSyntax text place .emptySegment := by
  -- what was read before grows by a segment and its dot
  induction rest using segments_induct generalizing before with
  | last segment hsegment =>
      rw [splitOn_last hsegment, segmentTokens]
      by_cases hne : segment = []
      · rw [splitSegments_of_empty (by rw [hne]; rfl), if_pos hne]
        exact congrArg Except.error (toError_of_split htext .emptySegment)
      · rw [splitSegments_last hsegment hne, if_neg hne]
        rfl
  | dot segment rest hsegment ih =>
      rw [splitOn_dot hsegment, segmentTokens]
      by_cases hne : segment = []
      · rw [splitSegments_of_empty (by rw [hne]; rfl), if_pos hne]
        exact congrArg Except.error (toError_of_split htext .emptySegment)
      · have hbefore : Text.byteSize (before ++ segment ++ ['.']) =
            Text.byteSize before + Text.byteSize segment + 1 := by
          rw [Text.byteSize_append, Text.byteSize_append]
          rfl
        have hrest := @ih (before ++ segment ++ ['.']) (by rw [htext]; simp)
        rw [splitSegments_dot hsegment hne, if_neg hne, mapError_map, mapError_map, hrest, hbefore]

/-! ## Both readers -/

/-- A leading dot, where there is one, is read before the first segment. -/
theorem exists_cutAtDots (text : List Char) :
    ∃ before rest, text = before ++ rest ∧ splitDotted text = splitSegments rest ∧
      cutAtDots text = (Text.byteSize before, rest.splitOn '.') := by
  cases text using splitDotted.fun_cases with
  | case1 text => exact ⟨['.'], text, rfl, rfl, rfl⟩
  | case2 text hdot =>
      refine ⟨[], text, rfl, ?_, ?_⟩
      · rw [splitDotted]
        exact hdot
      · rw [cutAtDots]
        · rfl
        · exact hdot

/-- The splitter answers what counting the bytes of the segments gives. -/
theorem answer_splitDotted_eq_readSegments (text : String) :
    answer splitDotted text = readSegments text := by
  obtain ⟨before, rest, htext, hsplit, hcut⟩ := exists_cutAtDots text.toList
  rw [answer, readSegments, hsplit, hcut]
  exact splitSegments_eq_segmentTokens htext

/-- **The splitter and the scanner agree.** Every text without brackets and quotes gets the same
answer from both, the same tokens or the same error at the same byte; it is the answer of counting
the bytes of the segments. -/
theorem answer_splitDotted {text : String} (h : hasBrackets text.toList = false) :
    answer splitDotted text = answer scan text ∧
      answer splitDotted text = readSegments text := by
  refine ⟨?_, answer_splitDotted_eq_readSegments text⟩
  rw [answer, answer, splitDotted_eq_scan h]

/-- The empty segment behind a name of two bytes is reported by both readers at byte four. -/
theorem answer_splitDotted_empty_segment :
    hasBrackets ".é..b".toList = false ∧
      answer splitDotted ".é..b" = .error (.pathSyntax ".é..b" 4 .emptySegment) ∧
      answer scan ".é..b" = .error (.pathSyntax ".é..b" 4 .emptySegment) := by
  have hread : readSegments ".é..b" = .error (.pathSyntax ".é..b" 4 .emptySegment) := by
    decide +kernel
  have hplain : hasBrackets ".é..b".toList = false := by decide
  obtain ⟨hscan, hsegments⟩ := answer_splitDotted hplain
  exact ⟨hplain, hsegments.trans hread, hscan ▸ hsegments.trans hread⟩

end PathDoc.Path
