import PathDoc.Path.Parser
import PathDoc.Path.Text

/-!
# Reading back the canonical text of a path

Each of the three forms of a token is read back by the reader for its form: a plain name as a bare
segment (`scanBare_plainName`), a position and a quoted name as a bracket (`scanBracket_position`,
`scanBracket_quoted`). The scanner therefore reads the tokens of a rendered path one by one
(`scan_render`). A text without brackets and quotes has plain names only, and splitting it at the
dots gives the same names (`splitDotted_render`), so whichever reader a text gets, the path comes
back (`parse_text`).
-/

set_option autoImplicit false

namespace PathDoc

/-- Whether a token can be held by a program: positions are words. -/
def Token.inRange : Token → Bool
  | .index position => (Decimal.word? position).isSome
  | .key _ => true

/-- Whether all positions of a path are words. -/
def Path.inRange (path : Path) : Bool :=
  path.all Token.inRange

namespace Text

/-- A plain character separates nothing. -/
theorem isBareChar_of_isPlainChar {c : Char} (h : isPlainChar c = true) :
    Path.isBareChar c = true := by
  have hdot : isPlainChar '.' = false := by decide +kernel
  have hopen : isPlainChar '[' = false := by decide +kernel
  have hclose : isPlainChar ']' = false := by decide +kernel
  have hsingle : isPlainChar '\'' = false := by decide +kernel
  have hdouble : isPlainChar '"' = false := by decide +kernel
  have hne : ∀ d, isPlainChar d = false → c ≠ d := by
    intro d hd he
    rw [he, hd] at h
    exact Bool.noConfusion h
  simp [Path.isBareChar, hne _ hdot, hne _ hopen, hne _ hclose, hne _ hsingle, hne _ hdouble]

/-- What a plain name consists of. -/
theorem isPlainName_iff {name : List Char} :
    isPlainName name = true ↔
      name ≠ [] ∧ name.all Char.isDigit = false ∧ ∀ c ∈ name, isPlainChar c = true := by
  simp [isPlainName, and_assoc]

/-- A plain name does not begin with a separator. -/
theorem exists_head_of_isPlainName {name : List Char} (h : isPlainName name = true) :
    ∃ c rest, name = c :: rest ∧ c ≠ '.' ∧ c ≠ '[' := by
  obtain ⟨hne, -, hplain⟩ := isPlainName_iff.1 h
  obtain ⟨c, rest, rfl⟩ := List.exists_cons_of_ne_nil hne
  have hbare := isBareChar_of_isPlainChar (hplain c List.mem_cons_self)
  refine ⟨c, rest, rfl, ?_, ?_⟩
  · rintro rfl
    cases hbare
  · rintro rfl
    cases hbare

end Text

namespace Path

/-! ## Reading one token -/

/-- A text that is empty or goes on with a separator. -/
def AtSeparator (text : List Char) : Prop :=
  ∀ c ∈ text.head?, c = '.' ∨ c = '['

theorem atSeparator_cases {text : List Char} (h : AtSeparator text) :
    text = [] ∨ (∃ rest, text = '.' :: rest) ∨ ∃ rest, text = '[' :: rest := by
  cases text with
  | nil => exact Or.inl rfl
  | cons c rest =>
      rcases h c rfl with rfl | rfl
      · exact Or.inr (Or.inl ⟨rest, rfl⟩)
      · exact Or.inr (Or.inr ⟨rest, rfl⟩)

/-- A name that is not all digits stays a name. -/
theorem segmentToken_plainName {name : List Char} (h : Text.isPlainName name = true) :
    segmentToken name = .key (String.ofList name) := by
  rw [segmentToken, (Text.isPlainName_iff.1 h).2.1, if_neg Bool.false_ne_true]

/-- The bare characters in front of a separator. -/
theorem span_bare {name rest : List Char} (h : ∀ c ∈ name, isBareChar c = true)
    (hr : AtSeparator rest) :
    (name ++ rest).takeWhile isBareChar = name ∧ (name ++ rest).dropWhile isBareChar = rest := by
  -- all of the name is bare and the separator is not
  rw [List.takeWhile_append_of_pos h, List.dropWhile_append_of_pos h]
  rcases atSeparator_cases hr with rfl | ⟨rest, rfl⟩ | ⟨rest, rfl⟩
  · simp
  · simp [isBareChar]
  · simp [isBareChar]

/-- Bare characters in front of a separator are read as one segment. -/
theorem scanBare_bare {name rest : List Char} (hne : name ≠ [])
    (h : ∀ c ∈ name, isBareChar c = true) (hr : AtSeparator rest) :
    scanBare (name ++ rest) = .ok (segmentToken name, rest) := by
  obtain ⟨htake, hdrop⟩ := span_bare h hr
  rw [scanBare, hdrop, htake]
  rcases atSeparator_cases hr with rfl | ⟨rest, rfl⟩ | ⟨rest, rfl⟩ <;> simp [hne]

/-- **A plain name is read back as a bare segment.** -/
theorem scanBare_plainName {name rest : List Char} (h : Text.isPlainName name = true)
    (hr : AtSeparator rest) :
    scanBare (name ++ rest) = .ok (.key (String.ofList name), rest) := by
  obtain ⟨hne, -, hplain⟩ := Text.isPlainName_iff.1 h
  have hbare : ∀ c ∈ name, isBareChar c = true :=
    fun c hc => Text.isBareChar_of_isPlainChar (hplain c hc)
  rw [scanBare_bare hne hbare hr, segmentToken_plainName h]

/-- The digits in front of a closing bracket. -/
theorem span_digits {digits : List Char} (h : Decimal.isDigits digits = true)
    (rest : List Char) :
    (digits ++ ']' :: rest).takeWhile Char.isDigit = digits ∧
      (digits ++ ']' :: rest).dropWhile Char.isDigit = ']' :: rest := by
  rw [Decimal.isDigits, Bool.and_eq_true, List.all_eq_true] at h
  rw [List.takeWhile_append_of_pos h.2, List.dropWhile_append_of_pos h.2]
  simp

theorem exists_head_of_isDigits {digits : List Char} (h : Decimal.isDigits digits = true) :
    ∃ c rest, digits = c :: rest ∧ c.isDigit = true := by
  cases digits with
  | nil => cases h
  | cons c digits =>
      rw [Decimal.isDigits, Bool.and_eq_true, List.all_eq_true] at h
      exact ⟨c, digits, rfl, h.2 c List.mem_cons_self⟩

theorem splitInteger_of_isDigits {digits : List Char} (h : Decimal.isDigits digits = true)
    (rest : List Char) : splitInteger (digits ++ ']' :: rest) = (digits, ']' :: rest) := by
  obtain ⟨htake, hdrop⟩ := span_digits h rest
  obtain ⟨c, tail, rfl, hc⟩ := exists_head_of_isDigits h
  rw [splitInteger, htake, hdrop]
  -- a digit is no sign
  rintro others ⟨⟩
  cases hc

theorem splitInteger_of_sign {digits : List Char} (h : Decimal.isDigits digits = true)
    (rest : List Char) :
    splitInteger ('-' :: digits ++ ']' :: rest) = ('-' :: digits, ']' :: rest) := by
  obtain ⟨htake, hdrop⟩ := span_digits h rest
  rw [List.cons_append, splitInteger, htake, hdrop]

/-- The text of a position in front of a closing bracket. -/
theorem splitInteger_intText (position : Int) (rest : List Char) :
    splitInteger (Decimal.intText position ++ ']' :: rest) =
      (Decimal.intText position, ']' :: rest) := by
  cases position with
  | negSucc n => exact splitInteger_of_sign (Decimal.isDigits_natText (n + 1)) rest
  | ofNat n => exact splitInteger_of_isDigits (Decimal.isDigits_natText n) rest

/-- The text of a position begins with a sign or a digit. -/
theorem intText_eq_cons (position : Int) :
    ∃ c rest, Decimal.intText position = c :: rest ∧ (c = '-' ∨ c.isDigit = true) := by
  cases position with
  | negSucc n => exact ⟨'-', _, rfl, Or.inl rfl⟩
  | ofNat n =>
      obtain ⟨c, rest, htext, hc⟩ := exists_head_of_isDigits (Decimal.isDigits_natText n)
      exact ⟨c, rest, htext, Or.inr hc⟩

/-- **A position is read back from its bracket.** -/
theorem scanBracket_position {position : Int} (h : (Token.index position).inRange = true)
    (rest : List Char) :
    scanBracket (Decimal.intText position ++ ']' :: rest) = .ok (.index position, rest) := by
  obtain ⟨word, hword⟩ := Option.isSome_iff_exists.1 h
  have hread : scanInteger (Decimal.intText position ++ ']' :: rest) =
      .ok (.index position, ']' :: rest) := by
    simp only [scanInteger, splitInteger_intText, Decimal.readWord?_intText, hword,
      Decimal.toInt_of_word? hword]
  obtain ⟨c, digits, htext, hc⟩ := intText_eq_cons position
  have hcontent : scanContent (Decimal.intText position ++ ']' :: rest) =
      .ok (.index position, ']' :: rest) := by
    -- a sign or a digit is no quote, so the bracket holds a position
    have hquote : ¬(c = '\'' ∨ c = '"') := by
      rintro (rfl | rfl) <;> revert hc <;> decide
    rw [htext, List.cons_append] at hread ⊢
    rw [scanContent, if_neg hquote, if_pos hc, hread]
  rw [scanBracket, hcontent]
  rfl

/-- **A quoted name is read back from its bracket.** -/
theorem scanBracket_quoted (name rest : List Char) :
    scanBracket ('\'' :: Text.escape name ++ '\'' :: ']' :: rest) =
      .ok (.key (String.ofList name), rest) := by
  have hread : scanQuoted '\'' (Text.escape name ++ '\'' :: ']' :: rest) =
      .ok (.key (String.ofList name), ']' :: rest) := by
    rw [scanQuoted, Text.readQuoted_escape]
  rw [scanBracket, List.cons_append, scanContent, if_pos (Or.inl rfl), hread]
  rfl

/-! ## Scanning a rendered path -/

/-- The text of the tokens after the first begins with a separator. -/
theorem atSeparator_tokens (path : Path) : AtSeparator (path.flatMap (Token.render false)) := by
  cases path with
  | nil => exact fun c hc => by cases hc
  | cons token rest =>
      intro c hc
      rw [List.flatMap_cons] at hc
      cases token with
      | index position =>
          cases hc
          exact Or.inr rfl
      | key name =>
          rw [Token.render] at hc
          split at hc
          · cases hc
            exact Or.inl rfl
          · cases hc
            exact Or.inr rfl

theorem scanTail_of_bare {text rest : List Char} {token : Token}
    (h : scanBare text = .ok (token, rest)) :
    scanTail ('.' :: text) = (scanTail rest).map (token :: ·) := by
  rw [scanTail]
  split
  · rename_i hs
    rw [h] at hs
    cases hs
    rfl
  · rename_i hs
    rw [h] at hs
    cases hs

theorem scanTail_of_bracket {text rest : List Char} {token : Token}
    (h : scanBracket text = .ok (token, rest)) :
    scanTail ('[' :: text) = (scanTail rest).map (token :: ·) := by
  rw [scanTail]
  split
  · rename_i hs
    rw [h] at hs
    cases hs
    rfl
  · rename_i hs
    rw [h] at hs
    cases hs

/-- **The scanner reads one token of a rendered path.** -/
theorem scanTail_token {token : Token} (h : token.inRange = true) {rest : List Char}
    (hr : AtSeparator rest) :
    scanTail (token.render false ++ rest) = (scanTail rest).map (token :: ·) := by
  cases token with
  | index position =>
      have hread := scanBracket_position h rest
      simp only [Token.render, List.cons_append, List.append_assoc, List.nil_append]
      exact scanTail_of_bracket hread
  | key name =>
      -- a plain name is rendered bare, any other one in quotes
      cases hn : Text.isPlainName name.toList with
      | true =>
          have hread := scanBare_plainName hn hr
          rw [String.ofList_toList] at hread
          rw [Token.render, if_pos hn, if_neg Bool.false_ne_true, List.cons_append]
          exact scanTail_of_bare hread
      | false =>
          have hread := scanBracket_quoted name.toList rest
          rw [String.ofList_toList] at hread
          simp only [Token.render, hn, Bool.false_eq_true, if_false, List.cons_append,
            List.append_assoc, List.nil_append] at hread ⊢
          exact scanTail_of_bracket hread

/-- **The tokens after the first are read back.** -/
theorem scanTail_tokens {path : Path} (h : path.inRange = true) :
    scanTail (path.flatMap (Token.render false)) = .ok path := by
  induction path with
  | nil => rw [List.flatMap_nil, scanTail]
  | cons token rest ih =>
      rw [inRange, List.all_cons, Bool.and_eq_true] at h
      rw [List.flatMap_cons, scanTail_token h.1 (atSeparator_tokens rest), ih h.2]
      rfl

/-- Bracketed tokens are written the same at the start of a path. -/
theorem render_atStart {token : Token}
    (h : ∀ name, token = .key name → Text.isPlainName name.toList = false) :
    token.render true = token.render false ∧ ∃ text, token.render false = '[' :: text := by
  cases token with
  | index position => exact ⟨rfl, _, rfl⟩
  | key name =>
      rw [Token.render, Token.render, h name rfl]
      exact ⟨rfl, _, rfl⟩

/-- **The scanner reads a rendered path back.** -/
theorem scan_render {token : Token} {rest : Path} (h : (inRange (token :: rest)) = true) :
    scan (render (token :: rest)) = .ok (token :: rest) := by
  have htail := scanTail_tokens h
  rw [inRange, List.all_cons, Bool.and_eq_true] at h
  -- a plain name at the start has no dot before it, anything else is in a bracket as it is later on
  by_cases hn : ∃ name, token = .key name ∧ Text.isPlainName name.toList = true
  · obtain ⟨name, rfl, hname⟩ := hn
    have hread := scanBare_plainName hname (atSeparator_tokens rest)
    obtain ⟨c, cs, hc, hdot, hbracket⟩ := Text.exists_head_of_isPlainName hname
    have hfirst : scan (name.toList ++ rest.flatMap (Token.render false)) =
        (scanTail (rest.flatMap (Token.render false))).map (Token.key name :: ·) := by
      rw [scan]
      · rw [hread, String.ofList_toList]
      · intro text he
        rw [hc, List.cons_append] at he
        exact hdot (List.cons.inj he).1
      · intro text he
        rw [hc, List.cons_append] at he
        exact hbracket (List.cons.inj he).1
    rw [render, Token.render, if_pos hname, if_pos rfl, hfirst, scanTail_tokens h.2]
    rfl
  · have hquoted : ∀ name, token = .key name → Text.isPlainName name.toList = false := by
      intro name he
      rw [← Bool.not_eq_true]
      intro hname
      exact hn ⟨name, he, hname⟩
    obtain ⟨hstart, text, htext⟩ := render_atStart hquoted
    rw [List.flatMap_cons, htext, List.cons_append] at htail
    rw [render, hstart, htext, List.cons_append, scan]
    exact htail

/-! ## Splitting a rendered path -/

/-- A token without brackets is a plain name. -/
theorem plainName_of_not_hasBrackets {token : Token} {atStart : Bool}
    (h : hasBrackets (token.render atStart) = false) :
    ∃ name, token = .key name ∧ Text.isPlainName name.toList = true := by
  cases token with
  | index position => simp [Token.render, hasBrackets] at h
  | key name =>
      refine ⟨name, rfl, ?_⟩
      cases hn : Text.isPlainName name.toList with
      | true => rfl
      | false => simp [Token.render, hasBrackets, hn] at h

/-- The segment in front of a dot or at the end. -/
theorem span_segment {segment : List Char} (h : ∀ c ∈ segment, (c != '.') = true)
    (rest : List Char) (hr : ∀ c ∈ rest.head?, c = '.') :
    (segment ++ rest).takeWhile (· != '.') = segment ∧
      (segment ++ rest).dropWhile (· != '.') = rest := by
  rw [List.takeWhile_append_of_pos h, List.dropWhile_append_of_pos h]
  cases rest with
  | nil => simp
  | cons c rest => simp [hr c rfl]

theorem splitSegments_last {segment : List Char} (h : ∀ c ∈ segment, (c != '.') = true)
    (hne : segment ≠ []) : splitSegments segment = .ok [segmentToken segment] := by
  have hspan := span_segment h [] fun c hc => by cases hc
  rw [List.append_nil] at hspan
  rw [splitSegments, hspan.1, if_neg hne]
  split
  · rfl
  · rename_i hrest
    rw [hspan.2] at hrest
    cases hrest

theorem splitSegments_dot {segment : List Char} (h : ∀ c ∈ segment, (c != '.') = true)
    (hne : segment ≠ []) (rest : List Char) :
    splitSegments (segment ++ '.' :: rest) =
      (splitSegments rest).map (segmentToken segment :: ·) := by
  have hspan := span_segment h ('.' :: rest) fun c hc => (Option.some.inj hc).symm
  rw [splitSegments, hspan.1, if_neg hne]
  split
  · rename_i hrest
    rw [hspan.2] at hrest
    cases hrest
  · rename_i hrest
    rw [hspan.2] at hrest
    cases hrest
    rfl

/-- A plain name is one segment. -/
theorem segment_of_isPlainName {name : List Char} (h : Text.isPlainName name = true) :
    (∀ c ∈ name, (c != '.') = true) ∧ name ≠ [] := by
  refine ⟨fun c hc => ?_, (Text.isPlainName_iff.1 h).1⟩
  have hbare := Text.isBareChar_of_isPlainChar ((Text.isPlainName_iff.1 h).2.2 c hc)
  rw [bne_iff_ne]
  rintro rfl
  cases hbare

/-- **Splitting at the dots reads plain names back.** -/
theorem splitSegments_tokens {name : String} (hname : Text.isPlainName name.toList = true)
    {rest : Path} (h : hasBrackets (rest.flatMap (Token.render false)) = false) :
    splitSegments (name.toList ++ rest.flatMap (Token.render false)) = .ok (.key name :: rest) := by
  induction rest generalizing name with
  | nil =>
      obtain ⟨hsegment, hne⟩ := segment_of_isPlainName hname
      rw [List.flatMap_nil, List.append_nil, splitSegments_last hsegment hne,
        segmentToken_plainName hname, String.ofList_toList]
  | cons token rest ih =>
      rw [List.flatMap_cons, hasBrackets, List.any_append, Bool.or_eq_false_iff] at h
      -- without brackets the next token is a plain name too, behind a dot
      obtain ⟨next, rfl, hnext⟩ := plainName_of_not_hasBrackets h.1
      obtain ⟨hsegment, hne⟩ := segment_of_isPlainName hname
      rw [List.flatMap_cons, Token.render, if_pos hnext, if_neg Bool.false_ne_true,
        List.cons_append, splitSegments_dot hsegment hne, segmentToken_plainName hname,
        ih hnext h.2, String.ofList_toList]
      rfl

/-- **A rendered path without brackets is read back by splitting.** -/
theorem splitDotted_render {token : Token} {rest : Path}
    (h : hasBrackets (render (token :: rest)) = false) :
    splitDotted (render (token :: rest)) = .ok (token :: rest) := by
  rw [render, hasBrackets, List.any_append, Bool.or_eq_false_iff] at h
  obtain ⟨name, rfl, hname⟩ := plainName_of_not_hasBrackets h.1
  have hsplit := splitSegments_tokens hname h.2
  rw [render, Token.render, if_pos hname, if_pos rfl, splitDotted]
  · exact hsplit
  · intro text he
    obtain ⟨c, cs, hc, hdot, -⟩ := Text.exists_head_of_isPlainName hname
    rw [hc, List.cons_append] at he
    exact hdot (List.cons.inj he).1

/-! ## Reading a rendered path -/

/-- The text of a path is empty for the root only. -/
theorem render_ne_nil (token : Token) (rest : Path) : render (token :: rest) ≠ [] := by
  have htoken : token.render true ≠ [] := by
    cases token with
    | index position => exact List.cons_ne_nil _ _
    | key name =>
        rw [Token.render]
        split
        · rename_i hname
          exact (Text.isPlainName_iff.1 hname).1
        · exact List.cons_ne_nil _ _
  rw [render]
  intro h
  exact htoken (List.append_eq_nil_iff.1 h).1

theorem parseChars_render {path : Path} (h : path.inRange = true) :
    parseChars path.render = .ok path := by
  cases path with
  | nil => rfl
  | cons token rest =>
      -- which reader runs depends on the text; either one gives the path
      rw [parseChars, if_neg (render_ne_nil token rest)]
      split
      · exact scan_render h
      · rename_i hb
        exact splitDotted_render (Bool.not_eq_true _ ▸ hb)

/-- A path is read back from its canonical text. -/
theorem parse_canonical {path : Path} (h : path.inRange = true) : parse path.text = .ok path := by
  rw [parse, text, String.toList_ofList, parseChars_render h]

/-- Different paths have different texts. -/
theorem text_inj {a b : Path} (ha : a.inRange = true) (hb : b.inRange = true)
    (h : a.text = b.text) : a = b := by
  have hok : Except.ok a = (Except.ok b : Outcome Path) := by
    rw [← parse_canonical ha, h, parse_canonical hb]
  exact Except.ok.inj hok

/-- **A path is read back from its canonical text, so no other path has the same text.** -/
theorem parse_text {path : Path} (h : path.inRange = true) :
    parse path.text = .ok path ∧
      ∀ other : Path, other.inRange = true → other.text = path.text → other = path :=
  ⟨parse_canonical h, fun _ hother he => text_inj hother h he⟩

/-- Quotes, a sign, digits and the empty name are all read back. -/
theorem parse_text_mixed :
    parse (text [.key "it's", .index (-1), .key "7", .key "", .key "a-b"]) =
        .ok [.key "it's", .index (-1), .key "7", .key "", .key "a-b"] ∧
      ∀ other : Path, other.inRange = true →
        other.text = text [.key "it's", .index (-1), .key "7", .key "", .key "a-b"] →
        other = [.key "it's", .index (-1), .key "7", .key "", .key "a-b"] :=
  parse_text (by decide)

end Path

end PathDoc
