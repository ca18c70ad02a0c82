import PathDoc.Proofs.Document.Distinct
import PathDoc.Proofs.Find.Replacement
import PathDoc.Proofs.Traversal.Orders
import PathDoc.Proofs.Write.Members

/-!
# Sets whose matches are members

If the members that are no match hold none, a batch writes to members only, in order
(`replacements_of_shallow`). As long as no value equals another member the matches are replaced one
by one (`writeAll_of_differ`). Once a write merges two members the later ones are one position late,
and the next match stays where it is (`exists_kept_match`); only the last write may merge. So a
batch and a rebuild agree on such a set exactly if its members, all but the last match, differ from
each other after replacement (`agreesOn_plain_iff`).
-/

set_option autoImplicit false

namespace PathDoc

/-! ## The writes to the members -/

namespace Traversal

variable {traversal : Traversal} {predicate : Document → Bool} {f : Document → Document}

/-- The writes that replace the matches among the members of a set from some position on. -/
def memberWrites (predicate : Document → Bool) (f : Document → Document) (start : Nat)
    (members : List Document) : List (Path × Document) :=
  ((Document.positions start members).filter fun child => predicate child.2).map
    fun child => ([child.1], f child.2)

theorem memberWrites_of_match {member : Document} (h : predicate member = true) (start : Nat)
    (rest : List Document) :
    memberWrites predicate f start (member :: rest) =
      ([.index start], f member) :: memberWrites predicate f (start + 1) rest := by
  rw [memberWrites, Document.positions, List.filter_cons, if_pos h]
  rfl

theorem memberWrites_of_other {member : Document} (h : predicate member = false) (start : Nat)
    (rest : List Document) :
    memberWrites predicate f start (member :: rest) =
      memberWrites predicate f (start + 1) rest := by
  rw [memberWrites, Document.positions, List.filter_cons, if_neg (Bool.eq_false_iff.1 h)]
  rfl

theorem memberWrites_append (start : Nat) (a b : List Document) :
    memberWrites predicate f start (a ++ b) =
      memberWrites predicate f start a ++ memberWrites predicate f (start + a.length) b := by
  induction a generalizing start with
  | nil => rfl
  | cons member rest ih =>
      have hlength : start + (member :: rest).length = start + 1 + rest.length := by
        rw [List.length_cons]
        omega
      rw [List.cons_append, hlength]
      cases h : predicate member with
      | true => rw [memberWrites_of_match h, memberWrites_of_match h, ih, List.cons_append]
      | false => rw [memberWrites_of_other h, memberWrites_of_other h, ih]

/-- Where no member is a match, nothing is written. -/
theorem memberWrites_eq_nil {members : List Document} (h : ∀ m ∈ members, predicate m = false)
    (start : Nat) : memberWrites predicate f start members = [] := by
  induction members generalizing start with
  | nil => rfl
  | cons member rest ih =>
      rw [List.forall_mem_cons] at h
      rw [memberWrites_of_other h.1, ih h.2]

theorem position_of_mem_memberWrites {start : Nat} {members : List Document}
    {write : Path × Document} (h : write ∈ memberWrites predicate f start members) :
    ∃ i : Nat, start ≤ i ∧ write.1 = [.index i] := by
  induction members generalizing start with
  | nil => cases h
  | cons member rest ih =>
      cases hp : predicate member with
      | true =>
          rw [memberWrites_of_match hp] at h
          rcases List.mem_cons.1 h with rfl | h
          · exact ⟨start, Nat.le_refl start, rfl⟩
          · obtain ⟨i, hi, hpath⟩ := ih h
            exact ⟨i, by omega, hpath⟩
      | false =>
          rw [memberWrites_of_other hp] at h
          obtain ⟨i, hi, hpath⟩ := ih h
          exact ⟨i, by omega, hpath⟩

/-- **If the members that are no match hold none, all writes are to members.** -/
theorem replacements_of_shallow {members : List Document} (h : predicate (.set members) = false)
    (hx : traversal.expands (.set members) 0 = true)
    (hs : ∀ m ∈ members, predicate m = false → (traversal.lowered 1).findPaths predicate m = []) :
    traversal.replacements predicate f (.set members) = memberWrites predicate f 0 members := by
  have hchildren : ∀ child ∈ (Document.set members).children, predicate child.2 = false →
      (traversal.lowered 1).findPaths predicate child.2 = [] := by
    intro child hc
    exact hs child.2 (Document.mem_of_mem_positions hc)
  rw [replacements, findPaths_of_shallow h hx hchildren, below, List.filter_map, List.map_map]
  rfl

/-- A member after replacement, if it holds no match below. -/
def exchanged (predicate : Document → Bool) (f : Document → Document) (member : Document) :
    Document :=
  if predicate member then f member else member

theorem exchanged_of_match {member : Document} (h : predicate member = true) :
    exchanged predicate f member = f member := if_pos h

theorem exchanged_of_other {member : Document} (h : predicate member = false) :
    exchanged predicate f member = member := if_neg (Bool.eq_false_iff.1 h)

theorem namesDistinct_exchanged {member : Document} (hd : member.namesDistinct = true)
    (hf : ∀ d : Document, d.namesDistinct = true → (f d).namesDistinct = true) :
    (exchanged predicate f member).namesDistinct = true := by
  unfold exchanged
  split
  · exact hf member hd
  · exact hd

theorem replaced_eq_exchanged {member : Document} (hd : member.namesDistinct = true)
    (h : predicate member = false → (traversal.lowered 1).findPaths predicate member = []) :
    traversal.replaced predicate f 1 member = exchanged predicate f member := by
  cases hp : predicate member with
  | true => rw [replaced_of_match hp, exchanged_of_match hp]
  | false =>
      rw [exchanged_of_other hp, ← replaced_lowered, replaced_of_no_match hd (h hp)]

end Traversal

/-! ## Runs of writes to members -/

namespace Navigator

open Traversal (memberWrites memberWrites_of_match memberWrites_of_other exchanged
  exchanged_of_match exchanged_of_other position_of_mem_memberWrites)

variable {navigator : Navigator} {skipMissing : Bool} {predicate : Document → Bool}
  {f : Document → Document} {last : Document} {after : List Document}

/-- **While the replaced members differ from each other and from those that come after the last
match, no write merges.** -/
theorem writeAll_of_differ (done : List Document) {members : List Document}
    (hn : ∀ d ∈ done ++ (members.map (exchanged predicate f) ++ after), d.namesDistinct = true)
    (hfresh : ∀ a ∈ members, ∀ b ∈ last :: members, predicate a = true → predicate b = true →
      (b == f a) = false) (hlast : predicate last = true)
    (hp : (done ++ (members.map (exchanged predicate f) ++ after)).Pairwise
      fun a b => (a == b) = false) :
    navigator.writeAll skipMissing (.set (done ++ (members ++ last :: after)))
        (memberWrites predicate f done.length members) =
      some (.set (done ++ (members.map (exchanged predicate f) ++ last :: after))) := by
  induction members generalizing done with
  | nil => rfl
  | cons member rest ih =>
      have hrest : ∀ a ∈ rest, ∀ b ∈ last :: rest, predicate a = true → predicate b = true →
          (b == f a) = false := by
        intro a ha b hb
        refine hfresh a (List.mem_cons_of_mem _ ha) b ?_
        rcases List.mem_cons.1 hb with rfl | hb
        · exact List.mem_cons_self
        · exact List.mem_cons_of_mem _ (List.mem_cons_of_mem _ hb)
      -- whatever becomes of the first member, the rest is a run that starts one further
      have hnext : navigator.writeAll skipMissing
            (.set (done ++ exchanged predicate f member :: (rest ++ last :: after)))
            (memberWrites predicate f (done.length + 1) rest) =
          some (.set (done ++
            exchanged predicate f member :: (rest.map (exchanged predicate f) ++ last :: after))) := by
        have h := ih (done ++ [exchanged predicate f member]) (by simpa using hn) hrest
          (by simpa using hp)
        simpa using h
      cases h : predicate member with
      | false =>
          rw [memberWrites_of_other h, List.map_cons]
          rw [exchanged_of_other h] at hnext ⊢
          exact hnext
      | true =>
          rw [exchanged_of_match h] at hnext
          rw [List.map_cons, exchanged_of_match h, List.cons_append] at hn hp ⊢
          have hdiffer := ((Document.pairwise_differ_middle hn).1 hp).2
          have hclear : (done ++ (rest ++ last :: after)).any (· == f member) = false := by
            rw [List.any_eq_false]
            intro d hd
            rw [Bool.not_eq_true]
            simp only [List.mem_append, List.mem_cons] at hd
            rcases hd with hd | hd | rfl | hd
            · exact hdiffer d (List.mem_append_left _ hd)
            · cases hp' : predicate d with
              | true =>
                  have hm : d ∈ last :: member :: rest :=
                    List.mem_cons_of_mem _ (List.mem_cons_of_mem _ hd)
                  exact hfresh member List.mem_cons_self d hm h hp'
              | false =>
                  have hm := List.mem_map_of_mem (f := exchanged predicate f) hd
                  rw [exchanged_of_other hp'] at hm
                  exact hdiffer d (List.mem_append_right _ (List.mem_append_left _ hm))
            · exact hfresh member List.mem_cons_self d List.mem_cons_self h hlast
            · exact hdiffer d (List.mem_append_right _ (List.mem_append_right _ hd))
          rw [memberWrites_of_match h, List.cons_append, writeAll_cons, attempt_member, hclear]
          exact hnext

/-- **Writes that are one position late leave a match where it is.** -/
theorem exists_kept_match {done members tail : List Document} {result : Document}
    (hm : ∃ m ∈ members, predicate m = true)
    (hw : navigator.writeAll skipMissing (.set (done ++ (members ++ tail)))
      (memberWrites predicate f (done.length + 1) members) = some result) :
    ∃ kept member, result = .set kept ∧ member ∈ kept ∧ member ∈ members ∧
      predicate member = true := by
  induction members generalizing done with
  | nil =>
      obtain ⟨_, hmem, -⟩ := hm
      cases hmem
  | cons member rest ih =>
      cases h : predicate member with
      | true =>
          -- the first match stands before all positions that are written
          have hfirst : (done ++ (member :: rest ++ tail))[done.length]? = some member := by
            rw [List.getElem?_append_right (Nat.le_refl _), Nat.sub_self]
            rfl
          obtain ⟨kept, rfl, hkept⟩ := writeAll_keeps hfirst
            (fun write hwrite => position_of_mem_memberWrites hwrite) hw
          exact ⟨kept, member, rfl, List.mem_of_getElem? hkept, List.mem_cons_self, h⟩
      | false =>
          have hrest : ∃ m ∈ rest, predicate m = true := by
            obtain ⟨m, hmem, hp⟩ := hm
            rcases List.mem_cons.1 hmem with rfl | hmem
            · exact absurd (h.symm.trans hp) Bool.noConfusion
            · exact ⟨m, hmem, hp⟩
          rw [memberWrites_of_other h] at hw
          have hsplit : done ++ (member :: rest ++ tail) = done ++ [member] ++ (rest ++ tail) := by
            simp
          have hlength : done.length + 1 = (done ++ [member]).length := by simp
          rw [hsplit, hlength] at hw
          obtain ⟨kept, m, hresult, hmem, hin, hp⟩ := ih hrest hw
          exact ⟨kept, m, hresult, hmem, List.mem_cons_of_mem _ hin, hp⟩

/-- **If two replaced members other than the last are equal, a match stays in the set.** -/
theorem exists_kept_match_of_not_differ (done : List Document) {members : List Document}
    {result : Document}
    (hn : ∀ d ∈ done ++ (members ++ after), d.namesDistinct = true)
    (hf : ∀ d : Document, d.namesDistinct = true → (f d).namesDistinct = true)
    (hlast : predicate last = true)
    (hp : (done ++ (members.filter (fun m => !predicate m) ++ after)).Pairwise
      fun a b => (a == b) = false)
    (hclash : ¬ (done ++ (members.map (exchanged predicate f) ++ after)).Pairwise
      fun a b => (a == b) = false)
    (hw : navigator.writeAll skipMissing (.set (done ++ (members ++ last :: after)))
      (memberWrites predicate f done.length (members ++ [last])) = some result) :
    ∃ kept member, result = .set kept ∧ member ∈ kept ∧ member ∈ members ++ [last] ∧
      predicate member = true := by
  induction members generalizing done with
  | nil => exact absurd hp hclash
  | cons member rest ih =>
      -- a member that ends up as a value makes the rest a run that starts one further
      have hnext : ∀ value : Document, value.namesDistinct = true →
          exchanged predicate f member = value →
          (done ++ value :: (rest.filter (fun m => !predicate m) ++ after)).Pairwise
            (fun a b => (a == b) = false) →
          navigator.writeAll skipMissing (.set (done ++ value :: (rest ++ last :: after)))
            (memberWrites predicate f (done.length + 1) (rest ++ [last])) = some result →
          ∃ kept m, result = .set kept ∧ m ∈ kept ∧ m ∈ member :: rest ++ [last] ∧
            predicate m = true := by
        intro value hv hvalue hp' hw'
        have hlist : done ++ ((member :: rest).map (exchanged predicate f) ++ after) =
            done ++ [value] ++ (rest.map (exchanged predicate f) ++ after) := by
          rw [List.map_cons, hvalue]
          simp
        have hdistinct : ∀ d ∈ done ++ [value] ++ (rest ++ after), d.namesDistinct = true := by
          intro d hd
          simp only [List.mem_append, List.mem_cons, List.not_mem_nil, or_false] at hd
          rcases hd with (hd | rfl) | hd
          · exact hn d (List.mem_append_left _ hd)
          · exact hv
          · refine hn d (List.mem_append_right _ ?_)
            exact List.mem_cons_of_mem _ (List.mem_append.2 hd)
        obtain ⟨kept, m, hresult, hmem, hin, hm⟩ := ih (done ++ [value]) hdistinct
          (by simpa using hp') (hlist ▸ hclash) (by simpa using hw')
        exact ⟨kept, m, hresult, hmem, List.mem_cons_of_mem _ hin, hm⟩
      have hmember : member.namesDistinct = true :=
        hn member (List.mem_append_right _ List.mem_cons_self)
      cases h : predicate member with
      | false =>
          rw [List.cons_append, List.cons_append, memberWrites_of_other h] at hw
          refine hnext member hmember (exchanged_of_other h) ?_ hw
          simpa [List.filter_cons, h] using hp
      | true =>
          rw [List.cons_append, List.cons_append, memberWrites_of_match h, writeAll_cons,
            attempt_member] at hw
          simp only [List.filter_cons, h, Bool.not_true, Bool.false_eq_true, if_false] at hp
          cases hany : (done ++ (rest ++ last :: after)).any (· == f member) with
          | true =>
              -- the member is gone, and the writes that follow are one position late
              rw [hany] at hw
              have hsplit : done ++ (rest ++ last :: after) =
                  done ++ (rest ++ [last] ++ after) := by simp
              obtain ⟨kept, m, hresult, hmem, hin, hm⟩ := exists_kept_match
                ⟨last, List.mem_append_right _ List.mem_cons_self, hlast⟩ (hsplit ▸ hw)
              exact ⟨kept, m, hresult, hmem, List.mem_cons_of_mem _ hin, hm⟩
          | false =>
              rw [hany] at hw
              refine hnext (f member) (hf member hmember) (exchanged_of_match h) ?_ hw
              have hdiffer : ∀ d ∈ done ++ (rest ++ last :: after), (d == f member) = false :=
                fun d hd => Document.beq_eq_false_of_any hany hd
              refine (Document.pairwise_differ_middle fun d hd => ?_).2 ⟨hp, fun d hd => ?_⟩
              · simp only [List.mem_append, List.mem_cons] at hd
                rcases hd with hd | rfl | hd | hd
                · exact hn d (List.mem_append_left _ hd)
                · exact hf member hmember
                · exact hn d (by simp [List.mem_of_mem_filter hd])
                · exact hn d (by simp [hd])
              · simp only [List.mem_append] at hd
                rcases hd with hd | hd | hd
                · exact hdiffer d (List.mem_append_left _ hd)
                · exact hdiffer d (by simp [List.mem_of_mem_filter hd])
                · exact hdiffer d (by simp [hd])

/-! ## Sets without matches inside their members -/

/-- Whether the members of a set differ from each other, those that are no match hold none, and no
member is equal to a match after replacement. -/
structure Plain (predicate : Document → Bool) (f : Document → Document) (traversal : Traversal)
    (members : List Document) : Prop where
  /-- The members of a set differ from each other. -/
  differ : members.Pairwise fun a b => (a == b) = false
  /-- Matches are members, not parts of members. -/
  shallow : ∀ m ∈ members, predicate m = false → (traversal.lowered 1).findPaths predicate m = []
  /-- Replacement leaves no match behind. -/
  fresh : ∀ a ∈ members, ∀ b ∈ members, predicate b = true →
    (traversal.replaced predicate f 1 a).agrees b = false

/-- Whether the members of a set, all but the last match, differ from each other after
replacement. -/
def LeavesRoom (predicate : Document → Bool) (f : Document → Document) (traversal : Traversal)
    (members : List Document) : Prop :=
  ∀ before last after, members = before ++ last :: after → predicate last = true →
    (∀ m ∈ after, predicate m = false) →
      ((before ++ after).map (traversal.replaced predicate f 1)).Pairwise fun a b => (a == b) = false

variable {traversal : Traversal}

/-- A match differs from what replaces a match. -/
theorem Plain.beq_eq_false {members : List Document} (hp : Plain predicate f traversal members)
    (hn : ∀ m ∈ members, m.namesDistinct = true)
    (hf : ∀ d : Document, d.namesDistinct = true → (f d).namesDistinct = true) {a b : Document}
    (ha : a ∈ members) (hb : b ∈ members) (hpa : predicate a = true) (hpb : predicate b = true) :
    (b == f a) = false := by
  have hfresh : (traversal.replaced predicate f 1 a).agrees b = false := hp.fresh a ha b hb hpb
  rw [Traversal.replaced_of_match hpa] at hfresh
  rw [← Bool.not_eq_true, Document.beq_comm (hn b hb) (hf a (hn a ha))]
  intro he
  rw [Document.agrees_of_beq (hf a (hn a ha)) (hn b hb) he] at hfresh
  exact Bool.noConfusion hfresh

theorem Plain.replaced_eq {members : List Document} (hp : Plain predicate f traversal members)
    (hn : ∀ m ∈ members, m.namesDistinct = true) {m : Document} (hm : m ∈ members) :
    traversal.replaced predicate f 1 m = exchanged predicate f m :=
  Traversal.replaced_eq_exchanged (hn m hm) (hp.shallow m hm)

/-- The outcomes of the members of a plain set around its last match. -/
theorem Plain.map_replaced {before : List Document}
    (hp : Plain predicate f traversal (before ++ last :: after))
    (hn : ∀ m ∈ before ++ last :: after, m.namesDistinct = true)
    (hafter : ∀ m ∈ after, predicate m = false) :
    before.map (traversal.replaced predicate f 1) = before.map (exchanged predicate f) ∧
      after.map (traversal.replaced predicate f 1) = after := by
  constructor
  · exact List.map_congr_left fun m hm => hp.replaced_eq hn (List.mem_append_left _ hm)
  · refine (List.map_congr_left fun m hm => ?_).trans (List.map_id after)
    rw [hp.replaced_eq hn (List.mem_append_right _ (List.mem_cons_of_mem _ hm)),
      exchanged_of_other (hafter m hm)]
    rfl

/-- The writes to a plain set end with that to its last match. -/
theorem Plain.replacements_eq {before : List Document}
    (hp : Plain predicate f traversal (before ++ last :: after))
    (h : predicate (.set (before ++ last :: after)) = false)
    (hx : traversal.expands (.set (before ++ last :: after)) 0 = true)
    (hafter : ∀ m ∈ after, predicate m = false) :
    traversal.replacements predicate f (.set (before ++ last :: after)) =
      memberWrites predicate f 0 (before ++ [last]) := by
  have hsplit : before ++ last :: after = before ++ [last] ++ after := by simp
  rw [Traversal.replacements_of_shallow h hx hp.shallow, hsplit, Traversal.memberWrites_append,
    Traversal.memberWrites_eq_nil hafter, List.append_nil]

/-- **On a plain set whose replaced members but the last match differ, the two ways agree.** -/
theorem Plain.agreesOn {before : List Document}
    (hp : Plain predicate f traversal (before ++ last :: after))
    (hd : (Document.set (before ++ last :: after)).namesDistinct = true)
    (hf : ∀ d : Document, d.namesDistinct = true → (f d).namesDistinct = true)
    (h : predicate (.set (before ++ last :: after)) = false)
    (hx : traversal.expands (.set (before ++ last :: after)) 0 = true)
    (hlast : predicate last = true) (hafter : ∀ m ∈ after, predicate m = false)
    (hdiffer : (before.map (exchanged predicate f) ++ after).Pairwise fun a b => (a == b) = false) :
    navigator.AgreesOn skipMissing predicate f (fun a b => a.agrees b = true) traversal
      (.set (before ++ last :: after)) := by
  have hn : ∀ m ∈ before ++ last :: after, m.namesDistinct = true :=
    ((Document.everywhere_set _).1 hd).2
  -- everything that is compared is a finite map
  have hkept : ∀ d ∈ before.map (exchanged predicate f) ++ after, d.namesDistinct = true := by
    intro d hd
    rcases List.mem_append.1 hd with hd | hd
    · obtain ⟨m, hm, rfl⟩ := List.mem_map.1 hd
      exact Traversal.namesDistinct_exchanged (hn m (List.mem_append_left _ hm)) hf
    · exact hn d (List.mem_append_right _ (List.mem_cons_of_mem _ hd))
  -- all writes but the last one hit their members, since no two of these become equal
  have hrun : navigator.writeAll skipMissing (.set (before ++ last :: after))
      (memberWrites predicate f 0 before) =
        some (.set (before.map (exchanged predicate f) ++ last :: after)) := by
    refine writeAll_of_differ [] hkept (fun a ha b hb hpa hpb => ?_) hlast hdiffer
    have hb' : b ∈ before ++ last :: after := by
      rcases List.mem_cons.1 hb with rfl | hb
      · exact List.mem_append_right _ List.mem_cons_self
      · exact List.mem_append_left _ hb
    exact hp.beq_eq_false hn hf (List.mem_append_left _ ha) hb' hpa hpb
  -- the last write stores its value or merges its member with an equal one
  have hwrite : navigator.writeAll skipMissing (.set (before ++ last :: after))
      (memberWrites predicate f 0 (before ++ [last])) =
        some (.set (if (before.map (exchanged predicate f) ++ after).any (· == f last) then
          before.map (exchanged predicate f) ++ after
            else before.map (exchanged predicate f) ++ f last :: after)) := by
    have hlength : 0 + before.length = (before.map (exchanged predicate f)).length := by simp
    rw [Traversal.memberWrites_append, writeAll_append, hrun, hlength, memberWrites_of_match hlast]
    simp only [Option.bind_some, writeAll_cons, attempt_member]
    rfl
  refine ⟨_, (hp.replacements_eq h hx hafter).symm ▸ hwrite, ?_⟩
  have hmap := hp.map_replaced hn hafter
  rw [Traversal.replaced_set h hx hp.differ, List.map_append, List.map_cons, hmap.1, hmap.2,
    Traversal.replaced_of_match hlast]
  have hvalue : (f last).namesDistinct = true :=
    hf last (hn last (List.mem_append_right _ List.mem_cons_self))
  -- an equal member takes in the last replacement on both sides, though not at the same place
  cases hany : (before.map (exchanged predicate f) ++ after).any (· == f last) with
  | true =>
      obtain ⟨other, ho, he⟩ := List.any_eq_true.1 hany
      exact Document.agrees_ofMembers_middle hkept hvalue hdiffer ho he
  | false =>
      have hall : ∀ d ∈ before.map (exchanged predicate f) ++ f last :: after,
          d.namesDistinct = true := by
        intro d hd
        rcases List.mem_append.1 hd with hd | hd
        · exact hkept d (List.mem_append_left _ hd)
        · rcases List.mem_cons.1 hd with rfl | hd
          · exact hvalue
          · exact hkept d (List.mem_append_right _ hd)
      have hdistinct := (Document.pairwise_differ_middle hall).2
        ⟨hdiffer, fun d hd => Document.beq_eq_false_of_any hany hd⟩
      rw [Document.ofMembers, Document.distinct_of_pairwise hdistinct]
      exact Document.agrees_self ((Document.everywhere_set _).2 ⟨rfl, hall⟩)

/-- **On a plain set two of whose replaced members, none of them the last match, are equal, the two
ways disagree.** -/
theorem Plain.differ_of_agreesOn {before : List Document}
    (hp : Plain predicate f traversal (before ++ last :: after))
    (hd : (Document.set (before ++ last :: after)).namesDistinct = true)
    (hf : ∀ d : Document, d.namesDistinct = true → (f d).namesDistinct = true)
    (h : predicate (.set (before ++ last :: after)) = false)
    (hx : traversal.expands (.set (before ++ last :: after)) 0 = true)
    (hlast : predicate last = true) (hafter : ∀ m ∈ after, predicate m = false)
    (hagrees : navigator.AgreesOn skipMissing predicate f (fun a b => a.agrees b = true) traversal
      (.set (before ++ last :: after))) :
    (before.map (exchanged predicate f) ++ after).Pairwise fun a b => (a == b) = false := by
  have hn : ∀ m ∈ before ++ last :: after, m.namesDistinct = true :=
    ((Document.everywhere_set _).1 hd).2
  obtain ⟨result, hw, hagrees⟩ := hagrees
  by_contra hclash
  rw [hp.replacements_eq h hx hafter] at hw
  have hsub : (before.filter (fun m => !predicate m) ++ after).Sublist (before ++ last :: after) :=
    List.filter_sublist.append (List.sublist_cons_self last after)
  have hkept : ∀ d ∈ [] ++ (before ++ after), d.namesDistinct = true := by
    intro d hd
    rcases List.mem_append.1 (List.nil_append _ ▸ hd) with hd | hd
    · exact hn d (List.mem_append_left _ hd)
    · exact hn d (List.mem_append_right _ (List.mem_cons_of_mem _ hd))
  obtain ⟨kept, member, rfl, hmem, hin, hpm⟩ := exists_kept_match_of_not_differ [] hkept hf
    hlast (hp.differ.sublist hsub) hclash hw
  have hmember : member ∈ before ++ last :: after := by
    rcases List.mem_append.1 hin with hin | hin
    · exact List.mem_append_left _ hin
    · rw [List.mem_singleton.1 hin]
      exact List.mem_append_right _ List.mem_cons_self
  -- the match that stays is paired with a rebuilt member
  rw [Traversal.replaced_set h hx hp.differ, Document.ofMembers, Document.agrees_eq_eqLeaves]
    at hagrees
  obtain ⟨items, hitems, hpaired⟩ := Document.paired_of_eqLeaves hagrees
  cases hitems
  obtain ⟨other, ho, hsame⟩ := Multiset.exists_mem_of_rel_of_mem hpaired (Multiset.mem_coe.2 hmem)
  obtain ⟨a, ha, rfl⟩ := List.mem_map.1 (Document.mem_of_mem_distinct (Multiset.mem_coe.1 ho))
  have hfresh : (traversal.replaced predicate f 1 a).agrees member = false :=
    hp.fresh a ha member hmember hpm
  have hnames : (traversal.replaced predicate f 1 a).namesDistinct = true := by
    rw [hp.replaced_eq hn ha]
    exact Traversal.namesDistinct_exchanged (hn a ha) hf
  rw [Document.agrees_comm hnames (hn member hmember), Document.agrees_eq_eqLeaves, hsame] at hfresh
  exact Bool.noConfusion hfresh

/-- Among members with a match there is a last one. -/
theorem exists_last_match {members : List Document} (h : ∃ m ∈ members, predicate m = true) :
    ∃ before last after, members = before ++ last :: after ∧ predicate last = true ∧
      ∀ m ∈ after, predicate m = false := by
  induction members with
  | nil =>
      obtain ⟨_, hm, -⟩ := h
      cases hm
  | cons member rest ih =>
      by_cases hrest : ∃ m ∈ rest, predicate m = true
      · obtain ⟨before, last, after, rfl, hlast, hafter⟩ := ih hrest
        exact ⟨member :: before, last, after, rfl, hlast, hafter⟩
      · push Not at hrest
        obtain ⟨m, hm, hp⟩ := h
        rcases List.mem_cons.1 hm with rfl | hm
        · exact ⟨[], m, rest, rfl, hp, fun m hm => Bool.eq_false_iff.2 (hrest m hm)⟩
        · exact absurd hp (hrest m hm)

/-- **On a plain set with a match the two ways agree exactly if all replaced members but the last
match differ.** -/
theorem agreesOn_plain_iff {members : List Document}
    (hd : (Document.set members).namesDistinct = true)
    (hf : ∀ d : Document, d.namesDistinct = true → (f d).namesDistinct = true)
    (h : predicate (.set members) = false)
    (hfound : traversal.findPaths predicate (.set members) ≠ [])
    (hp : Plain predicate f traversal members) :
    navigator.AgreesOn skipMissing predicate f (fun a b => a.agrees b = true) traversal
        (.set members) ↔ LeavesRoom predicate f traversal members := by
  have hx : traversal.expands (.set members) 0 = true := by
    by_contra hx
    exact hfound (Traversal.findPaths_of_not_expands h (Bool.eq_false_iff.2 hx))
  have hn : ∀ m ∈ members, m.namesDistinct = true := ((Document.everywhere_set _).1 hd).2
  -- the members before and after the last match, as they are replaced
  have houtcomes : ∀ {before last after}, members = before ++ last :: after →
      (∀ m ∈ after, predicate m = false) →
      (before ++ after).map (traversal.replaced predicate f 1) =
        before.map (exchanged predicate f) ++ after := by
    rintro before last after rfl hafter
    rw [List.map_append, (hp.map_replaced hn hafter).1, (hp.map_replaced hn hafter).2]
  constructor
  · rintro hagrees before last after rfl hlast hafter
    rw [houtcomes rfl hafter]
    exact hp.differ_of_agreesOn hd hf h hx hlast hafter hagrees
  · intro hroom
    -- a search that found something in a plain set found a member
    have hmatch : ∃ m ∈ members, predicate m = true := by
      by_contra hnone
      push Not at hnone
      have hnil : traversal.replacements predicate f (.set members) = [] := by
        rw [Traversal.replacements_of_shallow h hx hp.shallow,
          Traversal.memberWrites_eq_nil fun m hm => Bool.eq_false_iff.2 (hnone m hm)]
      exact hfound (List.map_eq_nil_iff.1 hnil)
    obtain ⟨before, last, after, rfl, hlast, hafter⟩ := exists_last_match hmatch
    refine hp.agreesOn hd hf h hx hlast hafter ?_
    rw [← houtcomes rfl hafter]
    exact hroom before last after rfl hlast hafter

end Navigator

end PathDoc
