/-!
# Hits in a text

A finder looks for a hit that starts at one given place. `Finder.all` goes through a text from left
to right and collects hits that do not overlap: after a hit the search goes on at its end, and an
empty hit right at the end of the hit before it does not count. The starts of hits never decrease
and no hit starts before the end of the one before it (`Finder.scan_chain`).

A searcher is all that the user of an expression sees: the hits in a text, and whether there is one.
`Finder.searcher` is one way to come by it.
-/

set_option autoImplicit false

namespace PathDoc.Text

/-- A stretch of a text, in characters from its start. -/
structure Span where
  /-- Where the stretch starts. -/
  start : Nat
  /-- Where it ends, exclusive. -/
  stop : Nat
  deriving DecidableEq

/-- A hit with the stretches of its numbered groups. -/
structure Hit where
  /-- The whole hit. -/
  span : Span
  /-- The stretch of each group that took part, the latest first. -/
  groups : List (Nat × Span)

/-- The stretch of a group of a hit; group zero is the whole hit. -/
def Hit.group? (hit : Hit) : Nat → Option Span
  | 0 => some hit.span
  | index + 1 => hit.groups.lookup (index + 1)

/-- A place in a text. -/
structure Place where
  /-- How many characters stand before it. -/
  position : Nat
  /-- The character before it. -/
  before : Option Char
  /-- The characters after it. -/
  rest : List Char

/-- The start of a text. -/
def Place.start (text : List Char) : Place := ⟨0, none, text⟩

/-- Looks for a hit that starts at a place. -/
abbrev Finder := Place → Option Hit

/-- What a compiled expression can be asked. Hits are stretches of characters, so they never start
or end inside a character. -/
structure Searcher where
  /-- The hits in a text, from left to right. -/
  all : List Char → List Hit
  /-- Whether there is a hit in a text. -/
  hits : List Char → Bool

namespace Finder

/-- The hits from a place on; `last` is the end of the last hit before it. -/
def scan (find : Finder) (last : Option Nat) (position : Nat) (before : Option Char) :
    List Char → List Hit
  | [] => (probe last position before []).toList
  | c :: rest =>
    match probe last position before (c :: rest) with
    | some hit => hit :: scan find (some hit.span.stop) (position + 1) (some c) rest
    | none => scan find last (position + 1) (some c) rest
where
  /-- The hit that starts at a place, unless the last hit covers the place or ends there and the
  new one is empty. -/
  probe (last : Option Nat) (position : Nat) (before : Option Char) (rest : List Char) :
      Option Hit :=
    if last.any (position < ·) then none
    else
      (find ⟨position, before, rest⟩).filter fun hit =>
        !(last == some position && hit.span.stop == position)

/-- All hits in a text that do not overlap, from left to right. -/
def all (find : Finder) (text : List Char) : List Hit :=
  find.scan none 0 none text

/-- Whether there is a hit from a place on. -/
def hitsFrom (find : Finder) (position : Nat) (before : Option Char) : List Char → Bool
  | [] => (find ⟨position, before, []⟩).isSome
  | c :: rest =>
    (find ⟨position, before, c :: rest⟩).isSome || hitsFrom find (position + 1) (some c) rest

/-- Whether there is a hit in a text; the search ends with the first one. -/
def hits (find : Finder) (text : List Char) : Bool :=
  find.hitsFrom 0 none text

/-- The searcher that tries a finder at one place after the other. -/
def searcher (find : Finder) : Searcher := ⟨find.all, find.hits⟩

/-- A finder whose hits start where it looks and do not end before. -/
def Anchored (find : Finder) : Prop :=
  ∀ place hit, find place = some hit →
    hit.span.start = place.position ∧ place.position ≤ hit.span.stop

/-- What a probe finds. -/
theorem probe_spec {find : Finder} (anchored : find.Anchored) {last : Option Nat} {position : Nat}
    {before : Option Char} {rest : List Char} {hit : Hit}
    (h : scan.probe find last position before rest = some hit) :
    hit.span.start = position ∧ position ≤ hit.span.stop ∧ ∀ e, last = some e → e ≤ position := by
  unfold scan.probe at h
  split at h
  · exact absurd h (by simp)
  · rename_i hl
    obtain ⟨hf, _⟩ := Option.filter_eq_some_iff.1 h
    obtain ⟨h1, h2⟩ := anchored _ _ hf
    refine ⟨h1, h2, ?_⟩
    rintro e rfl
    simpa using hl

/-- **Hits follow one another without overlap.** -/
theorem scan_chain {find : Finder} (anchored : find.Anchored) (last : Option Nat) (position : Nat)
    (before : Option Char) (text : List Char) :
    (find.scan last position before text).Pairwise (fun a b => a.span.stop ≤ b.span.start) ∧
      ∀ hit ∈ find.scan last position before text,
        position ≤ hit.span.start ∧ ∀ e, last = some e → e ≤ hit.span.start := by
  induction text generalizing last position before with
  | nil =>
    simp only [scan]
    refine ⟨?_, ?_⟩
    · cases scan.probe find last position before [] <;> simp
    · intro hit hm
      obtain ⟨h1, _, h3⟩ := probe_spec anchored (Option.mem_toList.1 hm)
      exact ⟨by omega, fun e he => by have := h3 e he; omega⟩
  | cons c rest ih =>
    simp only [scan]
    split
    · rename_i hit hp
      obtain ⟨h1, h2, h3⟩ := probe_spec anchored hp
      -- the next hit may not start before this one stops
      obtain ⟨hc, hb⟩ := ih (some hit.span.stop) (position + 1) (some c)
      refine ⟨List.pairwise_cons.2 ⟨fun b hm => (hb b hm).2 _ rfl, hc⟩, ?_⟩
      intro b hm
      rcases List.mem_cons.1 hm with rfl | hm
      · exact ⟨by omega, fun e he => by have := h3 e he; omega⟩
      · have h4 := hb b hm
        refine ⟨by omega, fun e he => ?_⟩
        have := h3 e he
        omega
    · obtain ⟨hc, hb⟩ := ih last (position + 1) (some c)
      refine ⟨hc, fun b hm => ?_⟩
      have h4 := hb b hm
      exact ⟨by omega, h4.2⟩

end Finder

end PathDoc.Text
