import PathDoc.Proofs.Text.Hits
import PathDoc.Regex.Program

/-!
# Groups lie in their match

A thread of a program that was started at a place has read a part of the text from there on: it
stands no further than the end, and what it remembers of groups lies between the start and where it
stands (`Thread.Since`). One instruction keeps to that (`Thread.Since.step`), and so does a run
(`Program.since_of_run`), whatever the instructions are. So a hit starts where it is looked for,
ends in the text and has its groups inside (`Program.finder_proper`).
-/

set_option autoImplicit false

namespace PathDoc.Regex

open Text

/-- A thread that was started at a place. -/
structure Thread.Since (place : Place) (thread : Thread) : Prop where
  /-- It has not gone back. -/
  later : place.position ≤ thread.place.position
  /-- It has the same text before it. -/
  sameEnd : thread.place.ahead.stop = place.ahead.stop
  /-- It opened groups where it was. -/
  opened : ∀ opening ∈ thread.opened,
    place.position ≤ opening.2 ∧ opening.2 ≤ thread.place.position
  /-- It closed groups where it was. -/
  closed : ∀ group ∈ thread.closed, group.2.Inside ⟨place.position, thread.place.position⟩

namespace Thread.Since

variable {place : Place} {thread next : Thread}

theorem start (place : Place) (address : Nat) : Thread.Since place ⟨address, place, [], []⟩ :=
  ⟨Nat.le_refl _, rfl, by simp, by simp⟩

theorem goto (h : thread.Since place) (address : Nat) : (thread.goto address).Since place :=
  ⟨h.later, h.sameEnd, h.opened, h.closed⟩

/-- Reading a character moves on by one. -/
theorem read (h : thread.Since place) {passes : Char → Bool} (hm : next ∈ thread.read passes) :
    next.Since place := by
  rw [Thread.read] at hm
  split at hm
  · rename_i c rest hrest
    split at hm
    · cases List.mem_singleton.1 hm
      -- the character moves from what is ahead to what was read, so the end stays where it is
      have hend : thread.place.position + (rest.length + 1) = place.ahead.stop := by
        rw [← h.sameEnd, Place.ahead, hrest, List.length_cons]
      refine ⟨Nat.le_succ_of_le h.later, ?_, ?_, ?_⟩
      · rw [← hend, Nat.add_comm rest.length, ← Nat.add_assoc]
        rfl
      · intro opening ho
        obtain ⟨hfirst, hlast⟩ := h.opened opening ho
        exact ⟨hfirst, Nat.le_succ_of_le hlast⟩
      · intro group hg
        obtain ⟨hfirst, hmiddle, hlast⟩ := h.closed group hg
        exact ⟨hfirst, hmiddle, Nat.le_succ_of_le hlast⟩
    · cases hm
  · cases hm

/-- **An instruction keeps what a thread has read and remembers between the start and where the
thread stands.** -/
theorem step (h : thread.Since place) {instruction : Instruction}
    (hm : next ∈ thread.step instruction) : next.Since place := by
  cases instruction with
  | char c => exact h.read hm
  | test set => exact h.read hm
  | assert condition =>
      rw [Thread.step] at hm
      split at hm
      · cases List.mem_singleton.1 hm
        exact h.goto _
      · cases hm
  | split first second =>
      rcases List.mem_cons.1 hm with rfl | hm
      · exact h.goto first
      · cases List.mem_singleton.1 hm
        exact h.goto second
  | jump address =>
      cases List.mem_singleton.1 hm
      exact h.goto address
  | openGroup index =>
      cases List.mem_singleton.1 hm
      refine ⟨h.later, h.sameEnd, ?_, h.closed⟩
      exact List.forall_mem_cons.2 ⟨⟨h.later, Nat.le_refl _⟩, h.opened⟩
  | closeGroup index =>
      cases List.mem_singleton.1 hm
      refine ⟨h.later, h.sameEnd, h.opened, List.forall_mem_cons.2 ⟨?_, h.closed⟩⟩
      -- a group that was not opened closes where it is
      cases ho : thread.opened.lookup index with
      | none => exact ⟨h.later, Nat.le_refl _, Nat.le_refl _⟩
      | some start =>
          obtain ⟨before, after, hsplit, -⟩ := List.lookup_eq_some_iff.1 ho
          obtain ⟨hfirst, hlast⟩ := h.opened (index, start) (by rw [hsplit]; simp)
          exact ⟨hfirst, hlast, Nat.le_refl _⟩

end Thread.Since

namespace Program

/-- **A run ends in a thread that was started where all threads were.** -/
theorem since_of_run {program : Program} {place : Place} {fuel : Nat}
    {made : Std.HashSet (Nat × Nat)} {threads : List Thread} {last : Thread}
    (h : ∀ thread ∈ threads, thread.Since place)
    (hr : program.run fuel made threads = some last) : last.Since place := by
  induction fuel generalizing made threads with
  | zero => cases hr
  | succ fuel ih =>
      cases threads with
      | nil => cases hr
      | cons thread others =>
          obtain ⟨hthread, hothers⟩ := List.forall_mem_cons.1 h
          -- every thread that waits after a step comes from one that waited before
          have hstep : ∀ instruction, ∀ next ∈ thread.step instruction ++ others,
              next.Since place := by
            intro instruction next hm
            rcases List.mem_append.1 hm with hm | hm
            · exact hthread.step hm
            · exact hothers next hm
          rw [run] at hr
          split at hr
          · cases hr
            exact hthread
          · dsimp only at hr
            split at hr
            · exact ih hothers hr
            · exact ih (hstep _) hr
          · exact ih (hstep _) hr

/-- **Hits of a program start where they are looked for and end in the text, and groups lie in
their hit.** -/
theorem finder_proper (program : Program) : program.finder.Proper := by
  intro place hit hf
  obtain ⟨last, hr, rfl⟩ := Option.map_eq_some_iff.1 hf
  have hlast : last.Since place := by
    apply since_of_run _ hr
    intro thread hm
    cases List.mem_singleton.1 hm
    exact Thread.Since.start place 0
  have hend : last.place.position ≤ place.ahead.stop := by
    rw [← hlast.sameEnd]
    exact Nat.le_add_right _ _
  exact ⟨rfl, ⟨Nat.le_refl _, hlast.later, hend⟩, hlast.closed⟩

end Program

end PathDoc.Regex
