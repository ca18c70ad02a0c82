/-!
# Quoted text

Between quotes a backslash makes the next character stand for itself. `escape` writes a backslash
before backslashes and single quotes; `readQuoted` reads up to the closing quote. Main statement:
`readQuoted_escape`, a text that was escaped and closed by a single quote is read back whole.
-/

set_option autoImplicit false

namespace PathDoc.Text

/-- How the reading of a quoted text fails. Either way the whole input was used up. -/
inductive QuoteFault where
  /-- The input ends right after a backslash. -/
  | danglingEscape
  /-- The input ends before the closing quote. -/
  | unterminated
  deriving DecidableEq

/-- A text with a backslash before each backslash and each single quote. -/
def escape : List Char → List Char
  | [] => []
  | c :: rest => if c = '\\' ∨ c = '\'' then '\\' :: c :: escape rest else c :: escape rest

/-- Reads up to the closing quote; gives the text and what follows the quote. -/
def readQuoted (quote : Char) : List Char → Except QuoteFault (List Char × List Char)
  | [] => .error .unterminated
  | ['\\'] => .error .danglingEscape
  | '\\' :: c :: rest => (readQuoted quote rest).map fun (text, after) => (c :: text, after)
  | c :: rest =>
    if c = quote then .ok ([], rest)
    else (readQuoted quote rest).map fun (text, after) => (c :: text, after)

/-- **An escaped text is read back.** -/
theorem readQuoted_escape (text rest : List Char) :
    readQuoted '\'' (escape text ++ '\'' :: rest) = .ok (text, rest) := by
  induction text with
  | nil => simp [escape, readQuoted]
  | cons c text ih =>
    by_cases h : c = '\\' ∨ c = '\''
    · simp [escape, h, readQuoted, ih, Except.map]
    · obtain ⟨hb, hq⟩ := not_or.1 h
      simp [escape, readQuoted, hb, hq, ih, Except.map]

/-- **What follows a quoted text is shorter than the text.** -/
theorem readQuoted_length {quote : Char} {input text rest : List Char}
    (h : readQuoted quote input = .ok (text, rest)) : rest.length < input.length := by
  fun_induction readQuoted quote input generalizing text rest with
  | case1 => cases h
  | case2 => cases h
  | case3 c input ih =>
    cases hr : readQuoted quote input with
    | error e => rw [hr] at h; cases h
    | ok r =>
      rw [hr] at h
      cases h
      have := ih hr
      simp only [List.length_cons]
      omega
  | case4 => cases h; simp
  | case5 c input _ _ _ ih =>
    cases hr : readQuoted quote input with
    | error e => rw [hr] at h; cases h
    | ok r =>
      rw [hr] at h
      cases h
      have := ih hr
      simp only [List.length_cons]
      omega

end PathDoc.Text
