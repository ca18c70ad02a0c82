import PathDoc.Proofs.Path.Joined

/-!
# Where reading a path text stops

A reader that finds a fault stops in front of what it cannot read. What it has read up to there is
never at fault by itself: some other continuation would make a path text of it (`StopsInside`). This
is shown routine by routine, for quoted names (`stopsInside_quoted`), brackets
(`stopsInside_bracket`), bare segments (`stopsInside_bare`) and chains of segments
(`stopsInside_tail`), each with the continuation that closes what is still open. The offset in the
error of a text is the size of that beginning, so it lies on the boundary of a character of the text
(`parse_stops_inside`).
-/

set_option autoImplicit false

namespace PathDoc.Path

/-- What a reader of a text had read when it stopped can be continued to a text of a language. -/
def StopsInside (language : List Char → Prop) (text : List Char) (stop : Stop) : Prop :=
  ∃ read more : List Char, text = read ++ stop.rest ∧ language (read ++ more)

section

variable {language larger : List Char → Prop} {text : List Char} {stop : Stop}

/-- A reader that stopped at once has read the beginning of anything. -/
theorem stopsInside_start (fault : PathFault) (h : ∃ text, language text) :
    StopsInside language text ⟨text, fault⟩ := by
  obtain ⟨other, hother⟩ := h
  exact ⟨[], other, rfl, hother⟩

/-- What was read in front counts as read. -/
theorem StopsInside.prepend (h : StopsInside language text stop) (front : List Char)
    (hlarger : ∀ {text}, language text → larger (front ++ text)) :
    StopsInside larger (front ++ text) stop := by
  obtain ⟨read, more, rfl, hread⟩ := h
  exact ⟨front ++ read, more, by rw [List.append_assoc], by
    rw [List.append_assoc]
    exact hlarger hread⟩

/-- What is still open may be closed behind the continuation. -/
theorem StopsInside.extend (h : StopsInside language text stop) (tail : List Char)
    (hlarger : ∀ {text}, language text → larger (text ++ tail)) :
    StopsInside larger text stop := by
  obtain ⟨read, more, rfl, hread⟩ := h
  refine ⟨read, more ++ tail, rfl, ?_⟩
  rw [← List.append_assoc]
  exact hlarger hread

/-- A reader that stopped behind the first character has read that character. -/
theorem StopsInside.of_cons {c : Char} (h : StopsInside language (c :: text) stop)
    (hstart : ∃ text, larger text)
    (hlarger : ∀ {text}, language (c :: text) → larger (c :: text)) :
    StopsInside larger (c :: text) stop := by
  obtain ⟨read, more, htext, hread⟩ := h
  cases read with
  | nil =>
      obtain ⟨other, hother⟩ := hstart
      exact ⟨[], other, htext, hother⟩
  | cons first others =>
      obtain rfl : c = first := (List.cons.inj htext).1
      exact ⟨c :: others, more, htext, hlarger hread⟩

end

/-! ## Brackets -/

/-- A quoted name that is not closed is the beginning of one that is. -/
theorem exists_quoted_of_error {quote : Char} {input : List Char} {fault : Text.QuoteFault}
    (h : Text.readQuoted quote input = .error fault) :
    ∃ more name, Quoted quote (input ++ more) name := by
  fun_induction Text.readQuoted quote input generalizing fault with
  | case1 => exact ⟨[], [], .nil⟩
  | case2 => exact ⟨['a'], ['a'], .escaped 'a' .nil⟩
  | case3 c input ih =>
      cases hr : Text.readQuoted quote input with
      | ok result => rw [hr] at h; cases h
      | error fault =>
          obtain ⟨more, name, hname⟩ := ih hr
          exact ⟨more, c :: name, .escaped c hname⟩
  | case4 => cases h
  | case5 c input hlone hescape hquote ih =>
      -- the two cases before have taken every backslash
      have hbackslash : c ≠ '\\' := by
        intro hc
        cases input with
        | nil => exact hlone hc rfl
        | cons next rest => exact hescape next rest hc rfl
      cases hr : Text.readQuoted quote input with
      | ok result => rw [hr] at h; cases h
      | error fault =>
          obtain ⟨more, name, hname⟩ := ih hr
          exact ⟨more, c :: name, .plain hbackslash hquote hname⟩

/-- Whichever fault a quoted name has, its reader uses up the whole text. -/
theorem scanQuoted_eq_error {quote : Char} {input : List Char} {stop : Stop}
    (h : scanQuoted quote input = .error stop) :
    stop.rest = [] ∧ ∃ fault, Text.readQuoted quote input = .error fault := by
  unfold scanQuoted at h
  split at h
  · cases h
  · rename_i hread
    cases h
    exact ⟨rfl, _, hread⟩
  · rename_i hread
    cases h
    exact ⟨rfl, _, hread⟩

/-- A text between brackets. -/
def IsContent (text : List Char) : Prop :=
  ∃ token, Content text token

/-- Two quotes are the content of a bracket. -/
theorem exists_isContent : ∃ text, IsContent text :=
  ⟨['\'', '\''], _, .name (Or.inl rfl) .nil⟩

/-- **Reading a quoted name stops inside a quoted name.** -/
theorem stopsInside_quoted {quote : Char} (hq : quote = '\'' ∨ quote = '"') {input : List Char}
    {stop : Stop} (h : scanQuoted quote input = .error stop) :
    StopsInside IsContent (quote :: input) stop := by
  obtain ⟨hrest, fault, hread⟩ := scanQuoted_eq_error h
  obtain ⟨more, name, hname⟩ := exists_quoted_of_error hread
  refine ⟨quote :: input, more ++ [quote], ?_, .key (String.ofList name), ?_⟩
  · rw [hrest, List.append_nil]
  · rw [← List.append_assoc]
    exact .name hq hname

/-- The content of a bracket is refused at its beginning, or inside a quoted name. -/
theorem stopsInside_content {input : List Char} {stop : Stop}
    (h : scanContent input = .error stop) : StopsInside IsContent input stop := by
  unfold scanContent at h
  split at h
  · cases h
    exact stopsInside_start _ exists_isContent
  · rename_i c tail
    split at h
    · rename_i hq
      exact stopsInside_quoted hq h
    · split at h
      · unfold scanInteger at h
        split at h
        · cases h
        · cases h
          exact stopsInside_start _ exists_isContent
      · cases h
        exact stopsInside_start _ exists_isContent

theorem rest_of_scanClose {input : List Char} {stop : Stop} (h : scanClose input = .error stop) :
    stop.rest = input := by
  unfold scanClose at h
  split at h
  · cases h
  · cases h
    rfl
  · cases h
    rfl

/-- The content of a bracket with the closing bracket. -/
def IsClosed (text : List Char) : Prop :=
  ∃ content, text = content ++ [']'] ∧ IsContent content

/-- **Reading a bracket stops inside a bracket.** -/
theorem stopsInside_bracket {input : List Char} {stop : Stop}
    (h : scanBracket input = .error stop) : StopsInside IsClosed input stop := by
  unfold scanBracket at h
  split at h
  · rename_i token after hcontent
    obtain ⟨content, rfl, hc⟩ := scanContent_sound hcontent
    cases hclose : scanClose after with
    | ok tail => rw [hclose] at h; cases h
    | error found =>
        rw [hclose] at h
        cases h
        -- only the closing bracket is missing
        exact ⟨content, [']'], by rw [rest_of_scanClose hclose], content, rfl, token, hc⟩
  · rename_i hcontent
    cases h
    exact (stopsInside_content hcontent).extend [']'] fun hc => ⟨_, rfl, hc⟩

/-! ## Segments -/

/-- A chain of segments. -/
def IsChain (text : List Char) : Prop :=
  ∃ path, Segments text path

theorem IsChain.root : IsChain [] :=
  ⟨[], .nil⟩

theorem IsChain.bare {segment more : List Char} {token : Token} (first : Bare segment token)
    (rest : IsChain more) : IsChain ('.' :: (segment ++ more)) := by
  obtain ⟨path, hpath⟩ := rest
  exact ⟨token :: path, .cons (.dotted first) hpath⟩

theorem IsChain.bracket {inside more : List Char} (first : IsClosed inside)
    (rest : IsChain more) : IsChain ('[' :: (inside ++ more)) := by
  obtain ⟨content, rfl, token, hc⟩ := first
  obtain ⟨path, hpath⟩ := rest
  exact ⟨token :: path, .cons (.bracketed hc) hpath⟩

/-- **Reading a bare segment stops inside a bare segment.** All that was read is bare, and one more
bare character makes sure that it is not empty. -/
theorem stopsInside_bare {input : List Char} {stop : Stop} (h : scanBare input = .error stop) :
    StopsInside (fun text => IsChain ('.' :: text)) input stop := by
  -- all three faults of a bare segment leave what is not bare
  have hrest : stop.rest = input.dropWhile isBareChar := by
    unfold scanBare at h
    split at h
    · rename_i he
      cases h
      exact he.symm
    · rename_i he
      cases h
      exact he.symm
    · rename_i he
      cases h
      exact he.symm
    · split at h
      · cases h
        rfl
      · cases h
  -- one more bare character closes the segment, even if nothing was read
  refine ⟨input.takeWhile isBareChar, ['a'], ?_, ?_⟩
  · rw [hrest, List.takeWhile_append_dropWhile]
  · have hbare : ∀ c ∈ input.takeWhile isBareChar ++ ['a'], isBareChar c = true := by
      intro c hc
      rcases List.mem_append.1 hc with hc | hc
      · exact List.mem_takeWhile_imp hc
      · rw [List.mem_singleton.1 hc]
        rfl
    have hchain := IsChain.bare (bare_iff.2 ⟨by simp, hbare, rfl⟩) .root
    rwa [List.append_nil] at hchain

/-- **Reading the segments after the first stops inside a chain of segments.** What the segments
before the fault have read is kept in front of what the last one can be continued to. -/
theorem stopsInside_tail {input : List Char} {stop : Stop} (h : scanTail input = .error stop) :
    StopsInside IsChain input stop := by
  -- a read segment is put in front of where the rest stops; a fault stops inside its own segment
  fun_induction scanTail input generalizing stop with
  | case1 => cases h
  | case2 input token rest hread ih =>
      obtain ⟨segment, rfl, hbare, -⟩ := scanBare_eq_ok_iff.1 hread
      have hstops := ih (map_eq_error_iff.1 h)
      exact hstops.prepend ('.' :: segment) fun hrest => .bare hbare hrest
  | case3 input found hread =>
      cases h
      exact (stopsInside_bare hread).prepend ['.'] fun hchain => hchain
  | case4 input token rest hread ih =>
      obtain ⟨content, rfl, hc⟩ := scanBracket_eq_ok_iff.1 hread
      have hstops := ih (map_eq_error_iff.1 h)
      have hinput : '[' :: (content ++ ']' :: rest) = '[' :: (content ++ [']']) ++ rest := by simp
      rw [hinput]
      exact hstops.prepend ('[' :: (content ++ [']'])) fun hrest =>
        .bracket ⟨content, rfl, token, hc⟩ hrest
  | case5 input found hread =>
      cases h
      have hstops := stopsInside_bracket hread
      exact hstops.prepend ['['] fun hclosed => by
        simpa using IsChain.bracket hclosed .root
  | case6 text _ _ =>
      cases h
      exact stopsInside_start _ ⟨[], .root⟩

/-- A chain that begins with a bare segment is not refused before its dot. -/
theorem stopsInside_dot {input : List Char} {stop : Stop}
    (h : scanTail ('.' :: input) = .error stop) :
    StopsInside (fun text => IsChain ('.' :: text)) input stop := by
  rw [scanTail_dot] at h
  cases hread : scanBare input with
  | error found =>
      rw [hread] at h
      cases h
      exact stopsInside_bare hread
  | ok result =>
      obtain ⟨token, rest⟩ := result
      rw [hread] at h
      obtain ⟨segment, rfl, hbare, -⟩ := scanBare_eq_ok_iff.1 hread
      have hstops := stopsInside_tail (map_eq_error_iff.1 h)
      exact hstops.prepend segment fun hrest => .bare hbare hrest

/-! ## Whole texts -/

/-- **Reading a text stops inside a path text.** -/
theorem stopsInside_parseChars {text : List Char} {stop : Stop}
    (h : parseChars text = .error stop) :
    StopsInside (fun text => IsChain (dotted text)) text stop := by
  rw [parseChars_eq_scanTail] at h
  cases text with
  | nil =>
      rw [dotted, scanTail] at h
      cases h
  | cons c rest =>
      by_cases hc : c = '.' ∨ c = '['
      · rw [dotted_of_separator hc] at h
        refine (stopsInside_tail h).of_cons ⟨[], .root⟩ fun hchain => ?_
        rwa [dotted_of_separator hc]
      · rw [dotted_of_bare hc] at h
        refine (stopsInside_dot h).of_cons ⟨[], .root⟩ fun hchain => ?_
        rwa [dotted_of_bare hc]

theorem byteSize_eq_utf8ByteSize (text : List Char) :
    Text.byteSize text = (String.ofList text).utf8ByteSize := by
  induction text with
  | nil => rfl
  | cons c rest ih =>
      rw [Text.byteSize, ih, ← String.utf8ByteSize_singleton, ← String.utf8ByteSize_append,
        String.singleton_eq_ofList, ← String.ofList_append, List.singleton_append]

/-- **A text that is not read as a path is refused in front of its first fault.** The error is a
syntax error that carries the text and a byte offset. The offset is at most the size of the text and
lies on the boundary of a character, and what stands before it can be continued to a text that is
read as a path. -/
theorem parse_stops_inside {text : String} {error : Error} (h : parse text = .error error) :
    ∃ (before after : String) (fault : PathFault),
      text = before ++ after ∧ error = .pathSyntax text before.utf8ByteSize fault ∧
        before.utf8ByteSize ≤ text.utf8ByteSize ∧
        String.Pos.Raw.IsValid text ⟨before.utf8ByteSize⟩ ∧
        ∃ (more : String) (path : Path), parse (before ++ more) = .ok path := by
  cases hread : parseChars text.toList with
  | ok path =>
      rw [parse, hread] at h
      cases h
  | error stop =>
      rw [parse, hread] at h
      cases h
      obtain ⟨read, more, htext, path, hpath⟩ := stopsInside_parseChars hread
      -- what was read and what is left are the text, cut at the offset
      have hsplit : text = String.ofList read ++ String.ofList stop.rest := by
        rw [← String.ofList_append, ← htext, String.ofList_toList]
      have hoffset : Text.offset text.toList stop.rest = (String.ofList read).utf8ByteSize := by
        rw [htext, Text.offset_append, byteSize_eq_utf8ByteSize]
      have hvalid : String.Pos.Raw.IsValid text ⟨(String.ofList read).utf8ByteSize⟩ :=
        String.Pos.Raw.isValid_iff_exists_append.2 ⟨_, _, hsplit, rfl⟩
      refine ⟨_, _, stop.fault, hsplit, by rw [hoffset], hvalid.le_utf8ByteSize, hvalid,
        String.ofList more, path, ?_⟩
      rw [parse_eq_ok_iff_segments, ← String.ofList_append, String.toList_ofList]
      exact hpath

/-- Characters of two bytes before the fault: the bracket of a quoted name is not closed. -/
theorem parse_stops_inside_unclosed :
    parse "é['ü'x" = .error (.pathSyntax "é['ü'x" 7 .missingClose) ∧
      ∃ (before after : String) (fault : PathFault),
        "é['ü'x" = before ++ after ∧
          Error.pathSyntax "é['ü'x" 7 .missingClose =
            .pathSyntax "é['ü'x" before.utf8ByteSize fault ∧
          before.utf8ByteSize ≤ "é['ü'x".utf8ByteSize ∧
          String.Pos.Raw.IsValid "é['ü'x" ⟨before.utf8ByteSize⟩ ∧
          ∃ (more : String) (path : Path), parse (before ++ more) = .ok path := by
  have h : parse "é['ü'x" = .error (.pathSyntax "é['ü'x" 7 .missingClose) := by decide +kernel
  exact ⟨h, parse_stops_inside h⟩

end PathDoc.Path
