import PathDoc.Proofs.Document.Serialized

/-!
# Reading JSON keeps names apart

The reader inserts each entry of an object into the entries before it, so that a repeated name takes
the place of its first mention. Every value that it holds has distinct names
(`State.NamesDistinct`); one lexeme keeps this (`State.namesDistinct_step`), and so a whole text
does: a document that is read from a JSON text has distinct names (`namesDistinct_of_read?`).
-/

set_option autoImplicit false

namespace PathDoc.Json

/-- Whether the document of a JSON value has distinct names. -/
def NamesDistinct (value : Json) : Prop :=
  (Document.ofJson value).namesDistinct = true

theorem namesDistinct_array_iff {items : List Json} :
    (array items).NamesDistinct ↔ ∀ item ∈ items, item.NamesDistinct := by
  rw [NamesDistinct, Document.ofJson, Document.everywhere_sequence, Document.itemsOfJson_eq,
    List.forall_mem_map]
  exact and_iff_right rfl

theorem namesDistinct_object_iff {entries : Entries Json} :
    (object entries).NamesDistinct ↔
      (Entries.names entries).Nodup ∧ ∀ entry ∈ entries, entry.2.NamesDistinct := by
  have hnames : Entries.names (Document.entriesOfJson entries) = Entries.names entries := by
    rw [Document.entriesOfJson_eq, Entries.names, List.map_map]
    rfl
  rw [NamesDistinct, Document.ofJson, Document.everywhere_mapping, Document.hasDistinctNames,
    hnames, decide_eq_true_iff, Document.entriesOfJson_eq, List.forall_mem_map]
  exact Iff.rfl

/-- **An entry that is inserted into an object keeps names apart.** -/
theorem namesDistinct_insert {entries : Entries Json} {name : String} {value : Json}
    (h : (object entries).NamesDistinct) (hv : value.NamesDistinct) :
    (object (entries.insert name value)).NamesDistinct := by
  obtain ⟨hn, hvalues⟩ := namesDistinct_object_iff.1 h
  refine namesDistinct_object_iff.2 ⟨Entries.nodup_insert hn name value, fun entry he => ?_⟩
  rcases Entries.mem_insert he with rfl | he
  · exact hv
  · exact hvalues entry he

/-! ## Lexemes -/

/-- Whether the value of a lexeme, if it has one, has distinct names. -/
def Lexeme.NamesDistinct : Lexeme → Prop
  | .leaf value => value.NamesDistinct
  | _ => True

/-- A number stands for a leaf. -/
theorem namesDistinct_value? {numeral : Numeral} {value : Json} (h : numeral.value? = some value) :
    value.NamesDistinct := by
  have hfloat : ∀ result, numeral.toFloat? = some result → result.NamesDistinct := by
    intro result hr
    obtain ⟨x, -, rfl⟩ := Option.map_eq_some_iff.1 hr
    rfl
  have hint : ∀ n : Int, (int n).NamesDistinct := by
    intro n
    rw [NamesDistinct, Document.ofJson]
    split <;> rfl
  simp only [Numeral.value?] at h
  split at h
  · split at h
    · split at h
      · cases h
        exact hint _
      · exact hfloat value h
    · split at h
      · cases h
        exact hint _
      · exact hfloat value h
  · exact hfloat value h

theorem namesDistinct_readLexeme {input rest : List Char} {lexeme : Lexeme}
    (h : readLexeme input = some (lexeme, rest)) : lexeme.NamesDistinct := by
  unfold readLexeme at h
  split at h
  case h_1 => cases h
  case h_8 =>
    obtain ⟨⟨value, after⟩, -, h⟩ := Option.map_eq_some_iff.1 h
    cases h
    rfl
  case h_12 =>
    simp only [Option.bind_eq_bind, Option.bind_eq_some_iff] at h
    obtain ⟨⟨numeral, after⟩, -, value, hvalue, h⟩ := h
    cases h
    exact namesDistinct_value? hvalue
  -- signs have no value, and words stand for leaves
  all_goals
    cases h
    trivial

theorem namesDistinct_of_mem_lexemes {input : List Char} {all : List Lexeme}
    (h : lexemes input = some all) : ∀ lexeme ∈ all, lexeme.NamesDistinct := by
  fun_induction lexemes input generalizing all with
  | case1 =>
      cases h
      exact List.forall_mem_nil _
  | case2 input c tail _ lexeme rest hl ih =>
      obtain ⟨others, hothers, rfl⟩ := Option.map_eq_some_iff.1 h
      exact List.forall_mem_cons.2 ⟨namesDistinct_readLexeme hl, ih hothers⟩
  | case3 => cases h

/-! ## The machine -/

/-- Whether what an open container holds has distinct names. -/
def Frame.NamesDistinct : Frame → Prop
  | .array items => ∀ item ∈ items, item.NamesDistinct
  | .object entries _ => (Json.object entries).NamesDistinct

/-- Whether all that the machine holds has distinct names. -/
def State.NamesDistinct : State → Prop
  | .atValue stack | .atFirstItem stack | .atFirstName stack =>
    ∀ frame ∈ stack, frame.NamesDistinct
  | .atName entries stack | .atColon entries _ stack =>
    (Json.object entries).NamesDistinct ∧ ∀ frame ∈ stack, frame.NamesDistinct
  | .afterValue value stack => value.NamesDistinct ∧ ∀ frame ∈ stack, frame.NamesDistinct

variable {limit : Nat} {state next : State} {lexeme : Lexeme}

theorem namesDistinct_beginValue {stack : List Frame} (hl : lexeme.NamesDistinct)
    (h : ∀ frame ∈ stack, frame.NamesDistinct) (hb : beginValue limit stack lexeme = some next) :
    next.NamesDistinct := by
  unfold beginValue at hb
  split at hb
  · cases hb
    exact ⟨hl, h⟩
  · split at hb
    · cases hb
      exact h
    · cases hb
  · split at hb
    · cases hb
      exact h
    · cases hb
  · cases hb

/-- **One lexeme keeps names apart.** -/
theorem State.namesDistinct_step (hl : lexeme.NamesDistinct) (h : state.NamesDistinct)
    (hs : state.step limit lexeme = some next) : next.NamesDistinct := by
  have hempty : (Json.object []).NamesDistinct :=
    namesDistinct_object_iff.2 ⟨List.nodup_nil, List.forall_mem_nil _⟩
  unfold State.step at hs
  split at hs
  · exact namesDistinct_beginValue hl h hs
  · cases hs
    exact ⟨namesDistinct_array_iff.2 (List.forall_mem_nil _), h⟩
  · rename_i stack _
    have hstack : ∀ frame ∈ Frame.array [] :: stack, frame.NamesDistinct :=
      List.forall_mem_cons.2 ⟨List.forall_mem_nil _, h⟩
    exact namesDistinct_beginValue hl hstack hs
  · cases hs
    exact ⟨hempty, h⟩
  · cases hs
    exact ⟨hempty, h⟩
  · cases hs
    exact h
  -- a colon puts the object on the stack
  · cases hs
    exact List.forall_mem_cons.2 h
  · cases hs
    obtain ⟨hvalue, hstack⟩ := h
    obtain ⟨hitems, hstack⟩ := List.forall_mem_cons.1 hstack
    exact List.forall_mem_cons.2 ⟨List.forall_mem_cons.2 ⟨hvalue, hitems⟩, hstack⟩
  · cases hs
    obtain ⟨hvalue, hstack⟩ := h
    obtain ⟨hitems, hstack⟩ := List.forall_mem_cons.1 hstack
    refine ⟨namesDistinct_array_iff.2 fun item hm => ?_, hstack⟩
    exact List.forall_mem_cons.2 ⟨hvalue, hitems⟩ item (List.mem_reverse.1 hm)
  -- an entry is complete when its value is
  · cases hs
    obtain ⟨hvalue, hstack⟩ := h
    obtain ⟨hentries, hstack⟩ := List.forall_mem_cons.1 hstack
    exact ⟨namesDistinct_insert hentries hvalue, hstack⟩
  · cases hs
    obtain ⟨hvalue, hstack⟩ := h
    obtain ⟨hentries, hstack⟩ := List.forall_mem_cons.1 hstack
    exact ⟨namesDistinct_insert hentries hvalue, hstack⟩
  · cases hs

/-- A run keeps names apart. -/
theorem State.namesDistinct_run {all : List Lexeme} (hl : ∀ lexeme ∈ all, lexeme.NamesDistinct)
    (h : state.NamesDistinct) (hr : state.run limit all = some next) : next.NamesDistinct := by
  induction all generalizing state with
  | nil =>
      cases hr
      exact h
  | cons lexeme rest ih =>
      obtain ⟨hlexeme, hrest⟩ := List.forall_mem_cons.1 hl
      rw [run] at hr
      cases hs : state.step limit lexeme with
      | none =>
          rw [hs] at hr
          cases hr
      | some middle =>
          rw [hs] at hr
          exact ih hrest (namesDistinct_step hlexeme h hs) hr

/-- **A document that is read from a JSON text has distinct names.** -/
theorem namesDistinct_of_read? {text : String} {value : Json} (h : read? text = some value) :
    value.NamesDistinct := by
  simp only [read?, readWithin?, Option.bind_eq_bind, Option.bind_eq_some_iff] at h
  obtain ⟨all, hall, last, hlast, hresult⟩ := h
  have hstart : (State.atValue []).NamesDistinct := List.forall_mem_nil _
  have hstate := State.namesDistinct_run (namesDistinct_of_mem_lexemes hall) hstart hlast
  unfold State.result? at hresult
  split at hresult
  · cases hresult
    exact hstate.1
  · cases hresult

end PathDoc.Json
