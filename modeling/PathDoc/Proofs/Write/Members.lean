import PathDoc.Proofs.Write.Sequences

/-!
# Writing to the members of a set

A write to a position of a set replaces the member there, unless another member equals the value:
then the member is taken out and the members after it move up (`attempt_member`). Either way the
members before it stay where they are (`writeAll_keeps`).
-/

set_option autoImplicit false

namespace PathDoc

namespace Document

/-- The other members of a member between two lists. -/
theorem hasOther_append (before after : List Document) (member value : Document) :
    hasOther (before ++ member :: after) before.length value =
      (before ++ after).any (· == value) := by
  rw [hasOther, List.eraseIdx_append_of_length_le (Nat.le_refl _), Nat.sub_self,
    List.eraseIdx_cons_zero]

end Document

namespace Navigator

variable {navigator : Navigator} {skipMissing : Bool}

/-- What a write to a position of a set does, if there is a member. -/
theorem attempt_within {members : List Document} {i : Nat} (hi : i < members.length)
    (value : Document) :
    navigator.attempt skipMissing (.set members) ([.index i], value) =
      some (.set (if Document.hasOther members i value then members.eraseIdx i
        else members.set i value)) := by
  have htarget : navigator.target (.set members) (.index i) = .ok (.existing (.child i)) := by
    rw [target, locate, positionOr, Position.within?_natCast hi]
  have hwrite : navigator.write (.set members) [.index i] (.set (.value value)) =
      ((Document.set members).store (.existing (.child i)) value).mapError
        (·.toError [.index i] (.index i)) := by
    change navigator.applyLast [.index i] (.index i) (.set members) (.set (.value value)) = _
    unfold applyLast
    rw [htarget]
    unfold valueFor
    rfl
  rw [attempt, setting, Navigator.set, hwrite, Document.store, List.getElem?_eq_getElem hi]
  cases Document.hasOther members i value with
  | true => rfl
  | false => rfl

/-- A write to a position beyond the members of a set adds a member, is passed over or fails. -/
theorem attempt_beyond {members : List Document} {i : Nat} (hi : members.length ≤ i)
    {value next : Document}
    (h : navigator.attempt skipMissing (.set members) ([.index i], value) = some next) :
    next = .set members ∨ next = .set (members ++ [value]) := by
  have hlocate : navigator.locate (.set members) (.index i) =
      .error (notFound "index" (.set members)) := by
    rw [locate, positionOr, Position.within?_eq_none hi]
  have hwrite : navigator.write (.set members) [.index i] (.set (.value value)) =
      navigator.applyLast [.index i] (.index i) (.set members) (.set (.value value)) := rfl
  rw [attempt, setting, Navigator.set, hwrite, applyLast] at h
  -- only the position right behind the members is one where a value is added
  by_cases he : (i : Int) = members.length
  · have htarget : navigator.target (.set members) (.index i) = .ok .append := by
      rw [target, hlocate]
      exact if_pos he
    rw [htarget] at h
    simp only [valueFor, Document.store] at h
    by_cases hany : members.any (· == value) = true
    · rw [if_pos hany] at h
      cases h
      exact Or.inl rfl
    · rw [if_neg hany] at h
      cases h
      exact Or.inr rfl
  · have htarget : navigator.target (.set members) (.index i) =
        .error (notFound "index" (.set members)) := by
      rw [target, hlocate]
      exact if_neg he
    rw [htarget] at h
    simp only [notFound, Miss.toError, Except.map, Except.mapError] at h
    split at h
    · cases h
      exact Or.inl rfl
    · cases h

/-- A write to a position of a set leaves the members before that position alone. -/
theorem attempt_keeps {members : List Document} {i j : Nat} {value next member : Document}
    (hj : j < i) (hm : members[j]? = some member)
    (h : navigator.attempt skipMissing (.set members) ([.index i], value) = some next) :
    ∃ members', next = .set members' ∧ members'[j]? = some member := by
  rcases Nat.lt_or_ge i members.length with hi | hi
  · rw [attempt_within hi] at h
    cases h
    refine ⟨_, rfl, ?_⟩
    split
    · rw [List.getElem?_eraseIdx_of_lt hj, hm]
    · rw [List.getElem?_set_ne (by omega), hm]
  · rcases attempt_beyond hi h with rfl | rfl
    · exact ⟨members, rfl, hm⟩
    · obtain ⟨hlt, -⟩ := List.getElem?_eq_some_iff.1 hm
      exact ⟨_, rfl, by rw [List.getElem?_append_left hlt, hm]⟩

/-- **Writes to later positions of a set leave a member alone.** -/
theorem writeAll_keeps {members : List Document} {writes : List (Path × Document)} {j : Nat}
    {member result : Document} (hm : members[j]? = some member)
    (hw : ∀ write ∈ writes, ∃ i : Nat, j < i ∧ write.1 = [.index i])
    (h : navigator.writeAll skipMissing (.set members) writes = some result) :
    ∃ members', result = .set members' ∧ members'[j]? = some member := by
  induction writes generalizing members with
  | nil =>
      cases h
      exact ⟨members, rfl, hm⟩
  | cons write rest ih =>
      obtain ⟨⟨i, hi, hpath⟩, hrest⟩ := List.forall_mem_cons.1 hw
      obtain ⟨_, value⟩ := write
      cases hpath
      rw [writeAll_cons] at h
      obtain ⟨next, hnext, h⟩ := Option.bind_eq_some_iff.1 h
      obtain ⟨members', rfl, hm'⟩ := attempt_keeps hi hm hnext
      exact ih hm' hrest h

/-- What a write to a member between two lists does. -/
theorem attempt_member (before after : List Document) (member value : Document) :
    navigator.attempt skipMissing (.set (before ++ member :: after))
        ([.index before.length], value) =
      some (.set (if (before ++ after).any (· == value) then before ++ after
        else before ++ value :: after)) := by
  have hlt : before.length < (before ++ member :: after).length := by simp
  rw [attempt_within hlt, Document.hasOther_append,
    List.eraseIdx_append_of_length_le (Nat.le_refl _), Nat.sub_self, List.eraseIdx_cons_zero,
    List.set_append_right _ _ (Nat.le_refl _), Nat.sub_self, List.set_cons_zero]

end Navigator

end PathDoc
