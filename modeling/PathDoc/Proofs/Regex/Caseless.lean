import Mathlib.Data.List.Forall2
import PathDoc.Proofs.Regex.Escaped
import PathDoc.Proofs.Text.Folding

/-!
# Escaped texts up to case

With case variants on request every character of an escaped text becomes one instruction: it reads
the character itself, or one of the set of its case variants (`step_reading`). Neither joining the
characters to texts nor putting patterns one after the other changes the instructions
(`Pattern.emit_concat`), so the program is one instruction for each character
(`toList_code_of_parse`). It finds every stretch that is alike, character by character
(`Program.finder_reading_eq_some_iff`).
-/

set_option autoImplicit false

namespace PathDoc.Regex

open Text

/-- Whether a character is taken for another one: it is the same, or a case variant on request. -/
def alike (ignoreCase : Bool) (c d : Char) : Bool :=
  if ignoreCase then sameFold c d else c == d

/-! ## One character -/

/-- The instruction that reads a character, or a case variant of it on request. -/
def Instruction.reading (ignoreCase : Bool) (c : Char) : Instruction :=
  match Pattern.char ignoreCase c with
  | .one set => .test set
  | _ => .char c

/-- A character becomes a text or a set of characters that are alike. -/
theorem char_cases (ignoreCase : Bool) (c : Char) :
    (Pattern.char ignoreCase c = .text [c] ∧ ∀ d, alike ignoreCase c d = (d == c)) ∨
      ∃ set, Pattern.char ignoreCase c = .one set ∧ set.holds = alike ignoreCase c := by
  cases ignoreCase with
  | false => exact Or.inl ⟨rfl, fun d => Bool.beq_comm⟩
  | true =>
      rw [Pattern.char, if_pos rfl, Pattern.ofSet]
      cases hsingle : (CharSet.ofCodes (caseVariants c.toNat)).char? with
      | none => exact Or.inr ⟨_, rfl, funext (CharSet.holds_variants c)⟩
      | some own =>
          -- a set of one character holds the character itself and nothing else
          have honly : ∀ d, sameFold c d = true → d = own := by
            intro d hd
            rw [← CharSet.holds_variants] at hd
            exact CharSet.holds_of_char? hsingle d hd
          obtain rfl := honly c (sameFold_self c)
          refine Or.inl ⟨rfl, ?_⟩
          intro d
          rw [Bool.eq_iff_iff, beq_iff_eq]
          constructor
          · exact honly d
          · rintro rfl
            exact sameFold_self d

/-- **Reading a character** lets a thread past the characters that are alike. -/
theorem step_reading (ignoreCase : Bool) (c : Char) (thread : Thread) :
    thread.step (.reading ignoreCase c) = thread.read (alike ignoreCase c) := by
  rw [Instruction.reading]
  rcases char_cases ignoreCase c with ⟨htext, halike⟩ | ⟨set, hone, hholds⟩
  · rw [htext, funext halike]
    rfl
  · rw [hone, ← hholds]
    rfl

theorem emit_char (ignoreCase : Bool) (c : Char) (code : Code) :
    (Pattern.char ignoreCase c).emit code = code.push (.reading ignoreCase c) := by
  rw [Instruction.reading]
  rcases char_cases ignoreCase c with ⟨htext, -⟩ | ⟨set, hone, -⟩
  · rw [htext]
    rfl
  · rw [hone]
    rfl

theorem isStraight_reading (ignoreCase : Bool) (c : Char) :
    (Instruction.reading ignoreCase c).isStraight = true := by
  rw [Instruction.reading]
  split <;> rfl

/-! ## Patterns one after the other -/

namespace Pattern

/-- The code of patterns one after the other. -/
def emitAll (parts : List Pattern) : Emitter := fun code =>
  parts.foldl (fun code part => part.emit code) code

theorem emitAll_cons (part : Pattern) (parts : List Pattern) (code : Code) :
    emitAll (part :: parts) code = emitAll parts (part.emit code) :=
  rfl

theorem emitAll_append (first second : List Pattern) (code : Code) :
    emitAll (first ++ second) code = emitAll second (emitAll first code) :=
  List.foldl_append

theorem emitAll_items (pattern : Pattern) (code : Code) :
    emitAll pattern.items code = pattern.emit code := by
  induction pattern generalizing code with
  | seq a b _ ih => exact ih (a.emit code)
  | _ => rfl

theorem emitAll_flatMap_items (parts : List Pattern) (code : Code) :
    emitAll (parts.flatMap items) code = emitAll parts code := by
  induction parts generalizing code with
  | nil => rfl
  | cons part parts ih => rw [List.flatMap_cons, emitAll_append, emitAll_items, ih, emitAll_cons]

/-- Texts that join are laid out as they were. -/
theorem emitAll_prepend (part : Pattern) (parts : List Pattern) (code : Code) :
    emitAll (prepend part parts) code = emitAll (part :: parts) code := by
  rw [prepend.eq_def]
  split
  · rw [emitAll_cons, emitAll_cons, emitAll_cons, emit, emit, emit, List.foldl_append]
  · rfl

/-- **Putting patterns one after the other changes none of their instructions.** -/
theorem emit_concat (parts : List Pattern) (code : Code) :
    (concat parts).emit code = emitAll parts code := by
  have hprepend : ∀ items : List Pattern, ∀ code,
      emitAll (items.foldr prepend []) code = emitAll items code := by
    intro items
    induction items with
    | nil => exact fun _ => rfl
    | cons item items ih =>
        intro code
        rw [List.foldr_cons, emitAll_prepend, emitAll_cons, ih, emitAll_cons]
  rw [concat, emit_sequence]
  exact (hprepend _ code).trans (emitAll_flatMap_items parts code)

theorem groupCount_items {pattern : Pattern} (h : pattern.groupCount = 0) :
    ∀ item ∈ pattern.items, item.groupCount = 0 := by
  induction pattern with
  | empty => exact nofun
  | seq a b _ ih =>
      obtain ⟨ha, hb⟩ := Nat.max_eq_zero_iff.1 h
      exact List.forall_mem_cons.2 ⟨ha, ih hb⟩
  | _ => exact List.forall_mem_singleton.2 h

theorem groupCount_prepend {item : Pattern} {items : List Pattern} (hitem : item.groupCount = 0)
    (hitems : ∀ part ∈ items, part.groupCount = 0) :
    ∀ part ∈ prepend item items, part.groupCount = 0 := by
  rw [prepend.eq_def]
  split
  · exact List.forall_mem_cons.2 ⟨rfl, (List.forall_mem_cons.1 hitems).2⟩
  · exact List.forall_mem_cons.2 ⟨hitem, hitems⟩

theorem groupCount_sequence {parts : List Pattern} (h : ∀ part ∈ parts, part.groupCount = 0) :
    (sequence parts).groupCount = 0 := by
  induction parts with
  | nil => rfl
  | cons part parts ih =>
      obtain ⟨hpart, hparts⟩ := List.forall_mem_cons.1 h
      cases parts with
      | nil => exact hpart
      | cons next parts => exact Nat.max_eq_zero_iff.2 ⟨hpart, ih hparts⟩

/-- Patterns without groups have none when they are put one after the other. -/
theorem groupCount_concat {parts : List Pattern} (h : ∀ part ∈ parts, part.groupCount = 0) :
    (concat parts).groupCount = 0 := by
  have hjoined : ∀ items : List Pattern, (∀ item ∈ items, item.groupCount = 0) →
      ∀ part ∈ items.foldr prepend [], part.groupCount = 0 := by
    intro items
    induction items with
    | nil => exact fun _ => nofun
    | cons item items ih =>
        intro hall
        obtain ⟨hitem, hrest⟩ := List.forall_mem_cons.1 hall
        exact groupCount_prepend hitem (ih hrest)
  apply groupCount_sequence
  apply hjoined
  intro item hm
  obtain ⟨part, hpart, hitem⟩ := List.mem_flatMap.1 hm
  exact groupCount_items (h part hpart) item hitem

end Pattern

/-! ## Escaped texts -/

variable {ignoreCase : Bool} {text : List Char}

/-- The instructions of an escaped text. -/
def readingCode (ignoreCase : Bool) (text : List Char) : List Instruction :=
  text.map (.reading ignoreCase)

theorem emitAll_chars (ignoreCase : Bool) (text : List Char) (code : Code) :
    (Pattern.emitAll (text.map (.char ignoreCase)) code).toList =
      code.toList ++ readingCode ignoreCase text := by
  induction text generalizing code with
  | nil => exact (List.append_nil _).symm
  | cons c text ih =>
      rw [List.map_cons, Pattern.emitAll_cons, emit_char, ih, Array.toList_push, List.append_assoc]
      rfl

theorem eq_concat_of_parse_escape {pattern : Pattern}
    (h : parse ignoreCase (escape text) = .ok pattern) :
    pattern = Pattern.concat (text.map (.char ignoreCase)) := by
  let items := text.map fun c => (escapeChar c, Pattern.char ignoreCase c)
  have hspells : ∀ item ∈ items, Spells ignoreCase item.1 item.2 := by
    intro item hm
    obtain ⟨c, -, rfl⟩ := List.mem_map.1 hm
    exact spells_char ignoreCase c
  have hsource : items.flatMap Prod.fst = escape text := List.flatMap_map ..
  rw [← hsource] at h
  rw [eq_concat_of_parse hspells h, List.map_map]
  rfl

/-- **The program of an escaped text** reads it character by character. -/
theorem toList_code_of_parse {pattern : Pattern}
    (h : parse ignoreCase (escape text) = .ok pattern) :
    (Program.ofPattern pattern).code.toList = readingCode ignoreCase text := by
  rw [eq_concat_of_parse_escape h, Program.ofPattern, Pattern.emit_concat, emitAll_chars]
  rfl

theorem groupCount_of_parse_escape {pattern : Pattern}
    (h : parse ignoreCase (escape text) = .ok pattern) : pattern.groupCount = 0 := by
  rw [eq_concat_of_parse_escape h]
  apply Pattern.groupCount_concat
  intro part hm
  obtain ⟨c, -, rfl⟩ := List.mem_map.1 hm
  rcases char_cases ignoreCase c with ⟨hchar, -⟩ | ⟨set, hchar, -⟩ <;> rw [hchar] <;> rfl

/-! ## Where it stands -/

/-- Whether two texts are alike, character by character. -/
def Alike (ignoreCase : Bool) : List Char → List Char → Prop :=
  List.Forall₂ fun c d => alike ignoreCase c d = true

namespace Thread

variable {address : Nat} {read rest : List Char} {last : Thread}

theorem step_reading_standing (ignoreCase : Bool) (c d : Char) :
    (standing address read (d :: rest)).step (.reading ignoreCase c) =
      if alike ignoreCase c d then [standing (address + 1) (read ++ [d]) rest] else [] := by
  rw [step_reading, standing, standing, between_snoc]
  rfl

/-- **A thread gets past an escaped text** exactly if a text that is alike is ahead. -/
theorem follow_reading (text : List Char) :
    follow (readingCode ignoreCase text) (standing address read rest) = some last ↔
      ∃ middle after, rest = middle ++ after ∧ Alike ignoreCase text middle ∧
        last = standing (address + text.length) (read ++ middle) after := by
  induction text generalizing address read rest with
  | nil =>
      simp only [readingCode, List.map_nil, follow, Alike, List.forall₂_nil_left_iff,
        Option.some.injEq, List.length_nil, Nat.add_zero]
      constructor
      · rintro rfl
        exact ⟨[], rest, rfl, rfl, by rw [List.append_nil]⟩
      · rintro ⟨middle, after, rfl, rfl, rfl⟩
        rw [List.append_nil]
        rfl
  | cons c text ih =>
      simp only [Alike, List.forall₂_cons_left_iff]
      rw [readingCode, List.map_cons, follow]
      cases rest with
      | nil =>
          constructor
          · intro h
            rw [step_reading] at h
            cases h
          · rintro ⟨middle, after, hnil, ⟨d, others, -, -, rfl⟩, -⟩
            cases hnil
      | cons d rest =>
          rw [step_reading_standing]
          split
          · rename_i halike
            -- the first character is alike, the others by induction
            rw [List.head?_cons, Option.bind_some, ← readingCode, ih, List.length_cons,
              Nat.add_assoc, Nat.add_comm 1]
            constructor
            · rintro ⟨middle, after, rfl, hrest, rfl⟩
              exact ⟨d :: middle, after, rfl, ⟨d, middle, halike, hrest, rfl⟩, by
                rw [List.append_assoc]; rfl⟩
            · rintro ⟨middle, after, hsplit, ⟨e, others, -, hrest, rfl⟩, rfl⟩
              cases hsplit
              exact ⟨others, after, rfl, hrest, by rw [List.append_assoc]; rfl⟩
          · rename_i hdiffer
            -- the first character differs, so no text that is ahead is alike
            constructor
            · intro h
              cases h
            · rintro ⟨middle, after, hsplit, ⟨e, others, halike, -, rfl⟩, -⟩
              cases hsplit
              exact absurd halike hdiffer

end Thread

/-- **The program of an escaped text finds the stretches that are alike.** -/
theorem Program.finder_reading_eq_some_iff {program : Program}
    (hcode : program.code.toList = readingCode ignoreCase text) {read rest : List Char}
    {hit : Hit} :
    program.finder (.between read rest) = some hit ↔
      ∃ middle after, rest = middle ++ after ∧ Alike ignoreCase text middle ∧
        hit = ⟨⟨read.length, read.length + middle.length⟩, []⟩ := by
  have hstraight : ∀ instruction ∈ readingCode ignoreCase text, instruction.isStraight = true := by
    intro instruction hm
    obtain ⟨c, -, rfl⟩ := List.mem_map.1 hm
    exact isStraight_reading ignoreCase c
  rw [finder_eq_follow hcode hstraight, Option.map_eq_some_iff]
  constructor
  · rintro ⟨last, hlast, rfl⟩
    obtain ⟨middle, after, hrest, halike, rfl⟩ := (Thread.follow_reading text).1 hlast
    refine ⟨middle, after, hrest, halike, ?_⟩
    rw [Thread.standing, Place.between, List.length_append]
  · rintro ⟨middle, after, hrest, halike, rfl⟩
    refine ⟨_, (Thread.follow_reading text).2 ⟨middle, after, hrest, halike, rfl⟩, ?_⟩
    rw [Thread.standing, Place.between, List.length_append]

end PathDoc.Regex
