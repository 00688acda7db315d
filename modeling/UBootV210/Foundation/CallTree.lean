import Mathlib

/-! # Recursions over a finite set of calls

A recursion is given by the calls that each call makes. It ends exactly when
no call made on the way leads back to itself. -/

namespace UBootV210

variable {Call : Type*} (calls : Call → List Call)

/-- The depth of the recursion below a call is less than `depth`. -/
def EndsWithin : ℕ → Call → Prop
  | 0, _ => False
  | depth + 1, call => ∀ next ∈ calls call, EndsWithin depth next

/-- A call below `call`, or `call` itself, makes itself again. -/
def ComesBack (call : Call) : Prop :=
  ∃ again, Relation.ReflTransGen (fun call next => next ∈ calls call) call again ∧
    Relation.TransGen (fun call next => next ∈ calls call) again again

variable {calls} {call : Call}

theorem EndsWithin.mono (within : EndsWithin calls depth call)
    (le : depth ≤ more) : EndsWithin calls more call := by
  induction depth generalizing call more with
  | zero => exact within.elim
  | succ depth induction =>
    obtain ⟨more, rfl⟩ := Nat.exists_eq_add_of_le' le
    exact fun next member => induction (within next member) (Nat.le_add_left depth more)

theorem exists_endsWithin_of_acc (acc : Acc (fun next call => next ∈ calls call) call) :
    ∃ depth, EndsWithin calls depth call := by
  induction acc with
  | intro call _ induction =>
    choose! depth within using induction
    refine ⟨((calls call).map depth).sum + 1, fun next member => ?_⟩
    exact (within next member).mono (List.le_sum_of_mem (List.mem_map_of_mem member))

theorem ComesBack.exists_next (back : ComesBack calls call) :
    ∃ next ∈ calls call, ComesBack calls next := by
  obtain ⟨again, reach, cycle⟩ := back
  rcases reach.cases_head with rfl | ⟨next, member, rest⟩
  · obtain ⟨next, member, rest⟩ := Relation.TransGen.head'_iff.1 cycle
    exact ⟨next, member, call, rest, cycle⟩
  · exact ⟨next, member, again, rest, cycle⟩

theorem EndsWithin.not_comesBack (within : EndsWithin calls depth call) :
    ¬ ComesBack calls call := by
  induction depth generalizing call with
  | zero => exact within.elim
  | succ depth induction =>
    intro back
    obtain ⟨next, member, nextBack⟩ := back.exists_next
    exact induction (within next member) nextBack

/-- An infinite descent through finitely many calls meets one of them twice. -/
theorem comesBack_of_not_acc [Finite Call]
    (endless : ¬ Acc (fun next call => next ∈ calls call) call) : ComesBack calls call := by
  obtain ⟨descent, rfl, descends⟩ := not_acc_iff_exists_descending_chain.1 endless
  have below {first later : ℕ} (lt : first < later) :
      Relation.TransGen (fun call next => next ∈ calls call) (descent first) (descent later) :=
    Nat.rel_of_forall_rel_succ_of_lt _ (fun step => .single (descends step)) lt
  have reach (step : ℕ) :
      Relation.ReflTransGen (fun call next => next ∈ calls call) (descent 0) (descent step) := by
    rcases Nat.eq_zero_or_pos step with rfl | later
    · exact .refl
    · exact (below later).to_reflTransGen
  obtain ⟨first, later, apart, same⟩ := Finite.exists_ne_map_eq_of_infinite descent
  rcases Nat.lt_or_gt_of_ne apart with lt | lt
  · exact ⟨descent first, reach first, by simpa [← same] using below lt⟩
  · exact ⟨descent later, reach later, by simpa [same] using below lt⟩

theorem exists_endsWithin_iff [Finite Call] :
    (∃ depth, EndsWithin calls depth call) ↔ ¬ ComesBack calls call := by
  constructor
  · rintro ⟨depth, within⟩
    exact within.not_comesBack
  · intro never
    exact exists_endsWithin_of_acc (by_contra fun endless => never (comesBack_of_not_acc endless))

end UBootV210
