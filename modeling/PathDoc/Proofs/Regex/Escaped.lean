import PathDoc.Proofs.Text.Hits
import PathDoc.Regex.Parser
import PathDoc.Regex.Program

/-!
# Escaped texts as patterns

The pattern of a literal text escapes it and puts `^` before it or `$` behind it. Every character is
read as itself (`spells_char`), whatever it means where it is not escaped, so the pattern is one
text between its conditions (`eq_literal_of_parse`). Its program has no choices
(`toList_code_literal`): a thread follows it instruction by instruction (`Program.run_eq_follow`)
and comes to the end exactly where the text stands and the conditions hold
(`Program.finder_literal_eq_some_iff`).
-/

set_option autoImplicit false

namespace PathDoc.Regex

open Text

/-- An item at the edge of a literal text, if it is wanted there. -/
def edge {α : Type} (wanted : Bool) (item : α) : List α :=
  if wanted then [item] else []

@[simp] theorem mem_edge {α : Type} {wanted : Bool} {item other : α} :
    other ∈ edge wanted item ↔ wanted = true ∧ other = item := by
  cases wanted <;> simp [edge]

@[simp] theorem map_edge {α β : Type} (f : α → β) (wanted : Bool) (item : α) :
    (edge wanted item).map f = edge wanted (f item) := by
  cases wanted <;> rfl

/-! ## Reading -/

/-- The modes of a pattern that sets no flags, with or without case variants. -/
def Flags.plain (ignoreCase : Bool) : Flags := ⟨ignoreCase, false, false, false, false⟩

variable {ignoreCase : Bool}

/-- The reader with one more item in its branch. -/
def Reader.withItem (reader : Reader) (pattern : Pattern) : Reader :=
  { reader with items := some ⟨pattern, 0⟩ :: reader.items }

/-- A pattern text that is read as one item, in one round. -/
structure Spells (ignoreCase : Bool) (source : List Char) (pattern : Pattern) : Prop where
  /-- It is not empty. -/
  length_pos : 0 < source.length
  /-- The item is added to the current branch. -/
  read : ∀ (fuel : Nat) (reader : Reader) (rest : List Char), reader.flags = .plain ignoreCase →
    Reader.readItems (fuel + 1) reader (source ++ rest) =
      Reader.readItems fuel (reader.withItem pattern) rest

/-- The pattern text of a character. -/
def escapeChar (c : Char) : List Char :=
  if isMeta c then ['\\', c] else [c]

theorem readEscape_meta {c : Char} (h : isMeta c = true) (flags : Flags) (rest : List Char) :
    readEscape flags (c :: rest) = .ok (.char c, rest) := by
  rw [isMeta, List.contains_iff_mem] at h
  simp only [List.mem_cons, List.not_mem_nil, or_false] at h
  rcases h with rfl | rfl | rfl | rfl | rfl | rfl | rfl | rfl | rfl | rfl | rfl | rfl | rfl | rfl |
    rfl | rfl | rfl | rfl <;> rfl

theorem step_escaped {reader : Reader} (hflags : reader.flags = .plain ignoreCase) {c : Char}
    (h : isMeta c = true) (rest : List Char) :
    reader.step '\\' (c :: rest) = .ok (reader.withItem (.char ignoreCase c), rest) := by
  have hstep : reader.step '\\' (c :: rest) =
      (readEscape reader.flags (c :: rest)).bind fun found =>
        (reader.push (reader.atomPattern found.1) 0).map fun reader => (reader, found.2) := rfl
  have hpattern : reader.atomPattern (.char c) = .char ignoreCase c := by
    rw [Reader.atomPattern, hflags]
    rfl
  rw [hstep, readEscape_meta h, Except.bind, hpattern]
  rfl

theorem step_plain {reader : Reader} (hflags : reader.flags = .plain ignoreCase) {c : Char}
    (h : isMeta c = false) (rest : List Char) :
    reader.step c rest = .ok (reader.withItem (.char ignoreCase c), rest) := by
  -- what starts an operator would have to be escaped
  have hne : ∀ d, isMeta d = true → c ≠ d := by
    rintro d hd rfl
    exact Bool.false_ne_true (h.symm.trans hd)
  have hpattern : reader.plainPattern c = .char ignoreCase c := by
    rw [Reader.plainPattern, hflags]
    · rfl
    all_goals exact hne _ rfl
  rw [Reader.step, hpattern]
  · rfl
  all_goals exact hne _ rfl

theorem readItems_cons {reader : Reader} (hflags : reader.flags = .plain ignoreCase) (fuel : Nat)
    (c : Char) (rest : List Char) :
    Reader.readItems (fuel + 1) reader (c :: rest) =
      (reader.step c rest).bind fun (reader, rest) => Reader.readItems fuel reader rest := by
  rw [Reader.readItems, hflags]
  rfl

/-- **Every character is read as itself**, or as its case variants on request. -/
theorem spells_char (ignoreCase : Bool) (c : Char) :
    Spells ignoreCase (escapeChar c) (.char ignoreCase c) := by
  rw [escapeChar]
  split
  · rename_i hmeta
    refine ⟨Nat.succ_pos _, ?_⟩
    intro fuel reader rest hflags
    rw [List.cons_append, readItems_cons hflags, List.cons_append, step_escaped hflags hmeta]
    rfl
  · rename_i hplain
    refine ⟨Nat.succ_pos _, ?_⟩
    intro fuel reader rest hflags
    rw [List.cons_append, readItems_cons hflags, step_plain hflags (by simpa using hplain)]
    rfl

theorem spells_start : Spells ignoreCase ['^'] (.assertion .textStart) := by
  refine ⟨Nat.succ_pos _, ?_⟩
  intro fuel reader rest hflags
  obtain ⟨stack, branches, items, flags, groups, names⟩ := reader
  cases hflags
  rfl

theorem spells_end : Spells ignoreCase ['$'] (.assertion .textEnd) := by
  refine ⟨Nat.succ_pos _, ?_⟩
  intro fuel reader rest hflags
  obtain ⟨stack, branches, items, flags, groups, names⟩ := reader
  cases hflags
  rfl

/-- What is read after several items, each with its pattern text. -/
theorem readItems_spelled {items : List (List Char × Pattern)}
    (h : ∀ item ∈ items, Spells ignoreCase item.1 item.2) (fuel : Nat) {reader : Reader}
    (hflags : reader.flags = .plain ignoreCase) :
    Reader.readItems (fuel + items.length) reader (items.flatMap Prod.fst) =
      Reader.readItems fuel (items.foldl (fun reader item => reader.withItem item.2) reader) [] := by
  induction items generalizing reader with
  | nil => rfl
  | cons item items ih =>
      obtain ⟨hitem, hitems⟩ := List.forall_mem_cons.1 h
      rw [List.length_cons, ← Nat.add_assoc, List.flatMap_cons, hitem.read _ _ _ hflags]
      exact ih hitems hflags

theorem foldl_withItem (items : List (List Char × Pattern)) (reader : Reader) :
    items.foldl (fun reader item => reader.withItem item.2) reader =
      { reader with items := (items.map fun item => some ⟨item.2, 0⟩).reverse ++ reader.items } := by
  induction items generalizing reader with
  | nil => rfl
  | cons item items ih =>
      rw [List.foldl_cons, ih, List.map_cons, List.reverse_cons, List.append_assoc]
      rfl

theorem length_le_flatMap {items : List (List Char × Pattern)}
    (h : ∀ item ∈ items, Spells ignoreCase item.1 item.2) :
    items.length ≤ (items.flatMap Prod.fst).length := by
  induction items with
  | nil => exact Nat.le_refl _
  | cons item items ih =>
      obtain ⟨hitem, hitems⟩ := List.forall_mem_cons.1 h
      have hlength := ih hitems
      have hpos := hitem.length_pos
      rw [List.length_cons, List.flatMap_cons, List.length_append]
      omega

/-- A pattern is what was read, unless it is nested too deep or takes too much room. -/
theorem parse_eq {input : List Char} {reader : Reader}
    (h : Reader.readItems (input.length + 1) ⟨[], [], [], .plain ignoreCase, 0, []⟩ input =
      .ok reader)
    (hstack : reader.stack = []) :
    parse ignoreCase input =
      if depthLimit < reader.body.depth then .error .tooDeep
      else if reader.body.pattern.fits then .ok reader.body.pattern else .error .tooLarge := by
  have hparse : parse ignoreCase input =
      (Reader.readItems (input.length + 1) ⟨[], [], [], .plain ignoreCase, 0, []⟩
        input).bind fun reader =>
        if !reader.stack.isEmpty then .error .unclosedGroup
        else if depthLimit < reader.body.depth then .error .tooDeep
        else if reader.body.pattern.fits then .ok reader.body.pattern else .error .tooLarge := rfl
  rw [hparse, h, Except.bind, hstack]
  rfl

/-- **Items that are read one by one make up the pattern.** -/
theorem eq_concat_of_parse {items : List (List Char × Pattern)}
    (h : ∀ item ∈ items, Spells ignoreCase item.1 item.2) {pattern : Pattern}
    (hp : parse ignoreCase (items.flatMap Prod.fst) = .ok pattern) :
    pattern = Pattern.concat (items.map Prod.snd) := by
  obtain ⟨fuel, hfuel⟩ := Nat.exists_eq_add_of_le' (length_le_flatMap h)
  have hread : Reader.readItems ((items.flatMap Prod.fst).length + 1)
      ⟨[], [], [], .plain ignoreCase, 0, []⟩ (items.flatMap Prod.fst) =
        .ok ⟨[], [], (items.map fun item => some ⟨item.2, 0⟩).reverse, .plain ignoreCase, 0, []⟩ := by
    rw [hfuel, Nat.add_right_comm, readItems_spelled h _ rfl, foldl_withItem, List.append_nil]
    rfl
  rw [parse_eq hread rfl] at hp
  split at hp
  · cases hp
  · split at hp
    · cases hp
      simp [Reader.body, Reader.branch, List.filterMap_reverse, List.filterMap_map,
        Function.comp_def]
    · cases hp

/-! ## Literal texts -/

/-- The pattern text of a literal text that must start where the candidate starts, end where it
ends, or both. -/
def literalSource (atStart atEnd : Bool) (text : List Char) : List Char :=
  edge atStart '^' ++ escape text ++ edge atEnd '$'

/-- The items of a literal text, each with its pattern text. -/
def literalItems (atStart atEnd : Bool) (text : List Char) : List (List Char × Pattern) :=
  edge atStart (['^'], .assertion .textStart) ++ text.map (fun c => (escapeChar c, .text [c])) ++
    edge atEnd (['$'], .assertion .textEnd)

/-- The pattern of a literal text. -/
def literal (atStart atEnd : Bool) (text : List Char) : Pattern :=
  .sequence (edge atStart (.assertion .textStart) ++ edge (!text.isEmpty) (.text text) ++
    edge atEnd (.assertion .textEnd))

/-- The instructions of a literal text. -/
def literalCode (atStart atEnd : Bool) (text : List Char) : List Instruction :=
  edge atStart (.assert .textStart) ++ text.map .char ++ edge atEnd (.assert .textEnd)

/-- Characters one after the other join to a text. -/
theorem foldr_prepend_text (text : List Char) {tail : List Pattern}
    (htail : ∀ characters rest, tail ≠ .text characters :: rest) :
    (text.map fun c => Pattern.text [c]).foldr Pattern.prepend tail =
      edge (!text.isEmpty) (.text text) ++ tail := by
  induction text with
  | nil => rfl
  | cons c text ih =>
      rw [List.map_cons, List.foldr_cons, ih]
      cases text with
      | nil =>
          -- nothing to join with
          cases tail with
          | nil => rfl
          | cons item rest =>
              cases item with
              | text characters => exact absurd rfl (htail characters rest)
              | _ => rfl
      | cons d text => rfl

section

variable {atStart atEnd : Bool} {text : List Char}

theorem spells_of_mem_literalItems {item : List Char × Pattern}
    (hm : item ∈ literalItems atStart atEnd text) : Spells false item.1 item.2 := by
  simp only [literalItems, List.mem_append, mem_edge, List.mem_map] at hm
  rcases hm with (⟨-, rfl⟩ | ⟨c, -, rfl⟩) | ⟨-, rfl⟩
  · exact spells_start
  · exact spells_char false c
  · exact spells_end

theorem flatMap_literalItems :
    (literalItems atStart atEnd text).flatMap Prod.fst = literalSource atStart atEnd text := by
  rw [literalItems, List.flatMap_append, List.flatMap_append, List.flatMap_map]
  cases atStart <;> cases atEnd <;> rfl

theorem concat_literalItems :
    Pattern.concat ((literalItems atStart atEnd text).map Prod.snd) =
      literal atStart atEnd text := by
  have hparts : (literalItems atStart atEnd text).map Prod.snd =
      edge atStart (.assertion .textStart) ++ (text.map fun c => Pattern.text [c]) ++
        edge atEnd (.assertion .textEnd) := by
    simp [literalItems, Function.comp_def]
  -- no item is a sequence itself
  have hitems : ∀ part ∈ (literalItems atStart atEnd text).map Prod.snd, part.items = [part] := by
    rw [hparts]
    intro part hm
    simp only [List.mem_append, mem_edge, List.mem_map] at hm
    rcases hm with (⟨-, rfl⟩ | ⟨c, -, rfl⟩) | ⟨-, rfl⟩ <;> rfl
  have htail : ∀ characters rest,
      edge atEnd (Pattern.assertion .textEnd) ≠ .text characters :: rest := by
    cases atEnd <;> nofun
  have hfold : (edge atEnd (Pattern.assertion .textEnd)).foldr Pattern.prepend [] =
      edge atEnd (.assertion .textEnd) := by
    cases atEnd <;> rfl
  rw [Pattern.concat, List.flatMap_def, List.map_congr_left hitems, ← List.flatMap_def,
    List.flatMap_singleton', hparts, List.foldr_append, List.foldr_append, hfold,
    foldr_prepend_text text htail, literal, List.append_assoc]
  cases atStart <;> rfl

/-- **The pattern of a literal text is the text between its conditions.** -/
theorem eq_literal_of_parse {pattern : Pattern}
    (h : parse false (literalSource atStart atEnd text) = .ok pattern) :
    pattern = literal atStart atEnd text := by
  rw [← flatMap_literalItems] at h
  rw [eq_concat_of_parse (fun _ => spells_of_mem_literalItems) h, concat_literalItems]

theorem groupCount_literal : (literal atStart atEnd text).groupCount = 0 := by
  cases text <;> cases atStart <;> cases atEnd <;> rfl

/-! ## Layout -/

theorem emit_sequence (parts : List Pattern) (code : Code) :
    (Pattern.sequence parts).emit code = parts.foldl (fun code part => part.emit code) code := by
  induction parts generalizing code with
  | nil => rfl
  | cons part parts ih =>
      cases parts with
      | nil => rfl
      | cons next parts => exact ih (part.emit code)

theorem toList_code_literal :
    (Program.ofPattern (literal atStart atEnd text)).code.toList =
      literalCode atStart atEnd text := by
  rw [Program.ofPattern, literal, emit_sequence, List.foldl_append, List.foldl_append, literalCode]
  cases text <;> cases atStart <;> cases atEnd <;>
    simp [edge, Pattern.emit]

end

/-! ## Running -/

/-- Whether an instruction has at most one way to go on, to the next one. -/
def Instruction.isStraight : Instruction → Bool
  | split .. => false
  | jump _ => false
  | _ => true

namespace Thread

/-- The way through instructions one after the other. -/
def follow : List Instruction → Thread → Option Thread
  | [], thread => some thread
  | instruction :: rest, thread => (thread.step instruction).head?.bind (follow rest)

theorem follow_append (first second : List Instruction) (thread : Thread) :
    follow (first ++ second) thread = (follow first thread).bind (follow second) := by
  induction first generalizing thread with
  | nil => rfl
  | cons instruction first ih =>
      rw [List.cons_append, follow, follow, Option.bind_assoc]
      congr 1
      funext next
      exact ih next

/-- An instruction without choices stops a thread or leads it to the next one. -/
theorem step_of_isStraight {instruction : Instruction} (h : instruction.isStraight = true)
    (thread : Thread) :
    thread.step instruction = [] ∨
      ∃ next, thread.step instruction = [next] ∧ next.address = thread.address + 1 := by
  -- reading a character either fails or goes to the next address
  have hread : ∀ passes, thread.read passes = [] ∨
      ∃ next, thread.read passes = [next] ∧ next.address = thread.address + 1 := by
    intro passes
    rw [read]
    split
    · split
      · exact Or.inr ⟨_, rfl, rfl⟩
      · exact Or.inl rfl
    · exact Or.inl rfl
  cases instruction with
  | char c => exact hread _
  | test set => exact hread _
  | assert condition =>
      rw [step]
      split
      · exact Or.inr ⟨_, rfl, rfl⟩
      · exact Or.inl rfl
  | split first second => cases h
  | jump address => cases h
  | openGroup index => exact Or.inr ⟨_, rfl, rfl⟩
  | closeGroup index => exact Or.inr ⟨_, rfl, rfl⟩

end Thread

namespace Program

theorem run_nil (program : Program) (fuel : Nat) (made : Std.HashSet (Nat × Nat)) :
    program.run fuel made [] = none := by
  cases fuel <;> rfl

/-- A straight instruction is carried out without a note of it. -/
theorem run_straight {program : Program} {thread : Thread} {instruction : Instruction}
    (hcode : program.code[thread.address]? = some instruction)
    (h : instruction.isStraight = true) (fuel : Nat) (made : Std.HashSet (Nat × Nat)) :
    program.run (fuel + 1) made [thread] = program.run fuel made (thread.step instruction) := by
  rw [run, hcode]
  cases instruction with
  | split first second => cases h
  | _ => exact congrArg (program.run fuel made) (List.append_nil _)

/-- **A thread without choices ahead goes straight to the end of the program.** -/
theorem run_eq_follow {program : Program} {before ahead : List Instruction} {thread : Thread}
    {fuel : Nat} (hcode : program.code.toList = before ++ ahead)
    (hthread : thread.address = before.length)
    (hstraight : ∀ instruction ∈ ahead, instruction.isStraight = true)
    (hfuel : ahead.length < fuel) (made : Std.HashSet (Nat × Nat)) :
    program.run fuel made [thread] = thread.follow ahead := by
  induction ahead generalizing before thread fuel with
  | nil =>
      obtain ⟨fuel, rfl⟩ := Nat.exists_eq_add_of_lt hfuel
      -- no instruction is left: the thread has reached the end
      have hend : program.code[thread.address]? = none := by
        rw [← Array.getElem?_toList, hcode, hthread, List.append_nil]
        exact List.getElem?_eq_none (Nat.le_refl _)
      rw [run, hend]
      rfl
  | cons instruction ahead ih =>
      obtain ⟨fuel, rfl⟩ := Nat.exists_eq_add_of_lt hfuel
      obtain ⟨hfirst, hrest⟩ := List.forall_mem_cons.1 hstraight
      have hnow : program.code[thread.address]? = some instruction := by
        rw [← Array.getElem?_toList, hcode, hthread, List.getElem?_append_right (Nat.le_refl _),
          Nat.sub_self, List.getElem?_cons_zero]
      rw [run_straight hnow hfirst, Thread.follow]
      rcases Thread.step_of_isStraight hfirst thread with hstep | ⟨next, hstep, hnext⟩
      · rw [hstep, run_nil]
        rfl
      · -- the instruction is moved to those that have been carried out
        have hsplit : program.code.toList = before ++ [instruction] ++ ahead := by
          rw [hcode, List.append_cons]
        have haddress : next.address = (before ++ [instruction]).length := by
          rw [hnext, hthread, List.length_append, List.length_singleton]
        rw [hstep]
        exact ih hsplit haddress hrest (Nat.lt_add_right fuel (Nat.lt_succ_self _))

end Program

/-! ## Where a literal text stands -/

theorem between_snoc (read : List Char) (c : Char) (rest : List Char) :
    Place.between (read ++ [c]) rest = ⟨read.length + 1, some c, rest⟩ := by
  rw [Place.between, List.length_append, List.getLast?_concat]
  rfl

namespace Thread

/-- A thread without groups at a place. -/
def standing (address : Nat) (read rest : List Char) : Thread :=
  ⟨address, .between read rest, [], []⟩

variable {address : Nat} {read rest : List Char} {last : Thread}

theorem step_char_standing (c d : Char) :
    (standing address read (d :: rest)).step (.char c) =
      if d = c then [standing (address + 1) (read ++ [d]) rest] else [] := by
  have hpast : standing (address + 1) (read ++ [d]) rest =
      { (standing address read (d :: rest)).next with
        place := ⟨read.length + 1, some d, rest⟩ } := by
    rw [standing, between_snoc]
    rfl
  rw [hpast]
  by_cases hd : d = c
  · subst hd
    rw [if_pos rfl]
    exact if_pos (beq_self_eq_true d)
  · rw [if_neg hd]
    exact if_neg (by simpa using hd)

/-- A thread gets past a text exactly if the text is ahead. -/
theorem follow_text (text : List Char) :
    follow (text.map .char) (standing address read rest) = some last ↔
      ∃ after, rest = text ++ after ∧
        last = standing (address + text.length) (read ++ text) after := by
  induction text generalizing address read rest with
  | nil =>
      simp only [List.map_nil, follow, List.nil_append, List.length_nil, Nat.add_zero,
        List.append_nil, Option.some.injEq, exists_eq_left']
      exact eq_comm
  | cons c text ih =>
      rw [List.map_cons, follow]
      cases rest with
      | nil =>
          constructor
          · intro h
            cases h
          · rintro ⟨after, hnil, -⟩
            cases hnil
      | cons d rest =>
          rw [step_char_standing]
          split
          · rename_i hd
            subst hd
            -- one character is read, the others by induction
            rw [List.head?_cons, Option.bind_some, ih, Nat.add_assoc, Nat.add_comm 1]
            simp
          · rename_i hd
            simp [hd]

/-- A thread gets past a condition exactly if it holds. -/
theorem follow_edge (wanted : Bool) (condition : Assertion) :
    follow (edge wanted (.assert condition)) (standing address read rest) = some last ↔
      (wanted = true → condition.holds read.getLast? rest.head? = true) ∧
        last = standing (address + wanted.toNat) read rest := by
  cases wanted with
  | false =>
      rw [eq_comm]
      simp [edge, follow]
  | true =>
      have hstep : (standing address read rest).step (.assert condition) =
          if condition.holds read.getLast? rest.head? then [standing (address + 1) read rest]
          else [] := rfl
      rw [edge, if_pos rfl, follow, hstep]
      split
      · rename_i hholds
        rw [eq_comm]
        simp [follow, hholds]
      · rename_i hholds
        simp [hholds]

/-- A thread gets past a literal text exactly if the text is ahead and the conditions hold. -/
theorem follow_literalCode {atStart atEnd : Bool} {text : List Char} :
    follow (literalCode atStart atEnd text) (standing 0 read rest) = some last ↔
      ∃ after, rest = text ++ after ∧ (atStart = true → read = []) ∧ (atEnd = true → after = []) ∧
        last = standing (atStart.toNat + text.length + atEnd.toNat) (read ++ text) after := by
  rw [literalCode, follow_append, follow_append]
  constructor
  · intro h
    -- the three parts of the code one after the other, each from where the last one ended
    obtain ⟨behind, hbehind, hend⟩ := Option.bind_eq_some_iff.1 h
    obtain ⟨first, hfirst, htext⟩ := Option.bind_eq_some_iff.1 hbehind
    obtain ⟨hstart, rfl⟩ := (follow_edge atStart .textStart).1 hfirst
    obtain ⟨after, rfl, rfl⟩ := (follow_text text).1 htext
    obtain ⟨hlast, rfl⟩ := (follow_edge atEnd .textEnd).1 hend
    refine ⟨after, rfl, ?_, ?_, ?_⟩
    · intro hs
      simpa [Assertion.holds] using hstart hs
    · intro he
      simpa [Assertion.holds] using hlast he
    · rw [Nat.zero_add]
  · rintro ⟨after, rfl, hstart, hend, rfl⟩
    apply Option.bind_eq_some_iff.2
    refine ⟨standing (0 + atStart.toNat + text.length) (read ++ text) after, ?_, ?_⟩
    · apply Option.bind_eq_some_iff.2
      refine ⟨_, (follow_edge atStart .textStart).2 ⟨?_, rfl⟩,
        (follow_text text).2 ⟨after, rfl, rfl⟩⟩
      intro hs
      simp [Assertion.holds, hstart hs]
    · refine (follow_edge atEnd .textEnd).2 ⟨?_, ?_⟩
      · intro he
        simp [Assertion.holds, hend he]
      · rw [Nat.zero_add]

end Thread

namespace Program

theorem isStraight_of_mem_literalCode {atStart atEnd : Bool} {text : List Char}
    {instruction : Instruction} (hm : instruction ∈ literalCode atStart atEnd text) :
    instruction.isStraight = true := by
  simp only [literalCode, List.mem_append, mem_edge, List.mem_map] at hm
  rcases hm with (⟨-, rfl⟩ | ⟨c, -, rfl⟩) | ⟨-, rfl⟩ <;> rfl

theorem size_lt_fuel (program : Program) (length : Nat) :
    program.code.size < program.fuel length := by
  have hrounds : program.code.size + 2 ≤
      (2 * program.code.size * (length + 1) + 1) * (program.code.size + 2) :=
    Nat.le_mul_of_pos_left _ (Nat.succ_pos _)
  rw [fuel]
  omega

/-- **What a program without choices finds** is where a thread that follows it comes to the end. -/
theorem finder_eq_follow {program : Program} {instructions : List Instruction}
    (hcode : program.code.toList = instructions)
    (hstraight : ∀ instruction ∈ instructions, instruction.isStraight = true)
    (read rest : List Char) :
    program.finder (.between read rest) =
      ((Thread.standing 0 read rest).follow instructions).map fun thread =>
        ⟨⟨read.length, thread.place.position⟩, thread.closed⟩ := by
  have hfuel : instructions.length < program.fuel rest.length := by
    rw [← hcode, Array.length_toList]
    exact program.size_lt_fuel rest.length
  have hrun : program.run (program.fuel rest.length) ∅ [.standing 0 read rest] =
      (Thread.standing 0 read rest).follow instructions := by
    rw [← List.nil_append instructions] at hcode
    exact run_eq_follow hcode rfl hstraight hfuel ∅
  rw [← hrun]
  rfl

/-- **The program of a literal text finds the text** wherever it stands and the conditions hold. -/
theorem finder_literal_eq_some_iff {program : Program} {atStart atEnd : Bool} {text : List Char}
    (hcode : program.code.toList = literalCode atStart atEnd text) {read rest : List Char}
    {hit : Hit} :
    program.finder (.between read rest) = some hit ↔
      (∃ after, rest = text ++ after ∧ (atStart = true → read = []) ∧
        (atEnd = true → after = [])) ∧ hit = ⟨⟨read.length, read.length + text.length⟩, []⟩ := by
  rw [finder_eq_follow hcode (fun _ => isStraight_of_mem_literalCode), Option.map_eq_some_iff]
  constructor
  · rintro ⟨last, hlast, rfl⟩
    obtain ⟨after, hrest, hstart, hend, rfl⟩ := Thread.follow_literalCode.1 hlast
    refine ⟨⟨after, hrest, hstart, hend⟩, ?_⟩
    rw [Thread.standing, Place.between, List.length_append]
  · rintro ⟨⟨after, hrest, hstart, hend⟩, rfl⟩
    refine ⟨_, Thread.follow_literalCode.2 ⟨after, hrest, hstart, hend, rfl⟩, ?_⟩
    rw [Thread.standing, Place.between, List.length_append]

end Program

end PathDoc.Regex
