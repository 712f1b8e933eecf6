import Mathlib.Data.List.Chain
import Iuring.Lib.Transition

namespace Iuring.Lib.Transition

variable {S A E : Type} {step : A → S → Except E S} {guard : S → A → Prop}
  {late early : A → Prop}

/-- No action that can wait stands right before one that could go first. -/
def Deferred (late early : A → Prop) (as : List A) : Prop :=
  as.IsChain (fun a b => ¬(late a ∧ early b))

theorem Deferred.cons {a b : A} {bs : List A} (h : Deferred late early (b :: bs))
    (hab : ¬(late a ∧ early b)) : Deferred late early (a :: b :: bs) :=
  List.IsChain.cons_cons hab h

theorem Deferred.cons_of_not_late {a : A} {bs : List A} (h : Deferred late early bs)
    (ha : ¬late a) : Deferred late early (a :: bs) := by
  cases bs with
  | nil => exact List.IsChain.singleton a
  | cons b bs => exact h.cons fun hab => ha hab.1

variable [DecidablePred late]

/-- The same actions, with those that can wait and the others each in their old order. -/
structure Rearranged (late : A → Prop) [DecidablePred late] (as bs : List A) : Prop where
  perm : bs.Perm as
  late_same : bs.filter late = as.filter late
  others_same : bs.filter (fun a => ¬late a) = as.filter (fun a => ¬late a)

theorem Rearranged.refl (as : List A) : Rearranged late as as := ⟨.refl _, rfl, rfl⟩

theorem Rearranged.cons {as bs : List A} (h : Rearranged late as bs) (a : A) :
    Rearranged late (a :: as) (a :: bs) := by
  refine ⟨h.perm.cons a, ?_, ?_⟩
  · rw [List.filter_cons, List.filter_cons, h.late_same]
  · rw [List.filter_cons, List.filter_cons, h.others_same]

theorem Rearranged.trans {as bs cs : List A} (h : Rearranged late as bs)
    (h' : Rearranged late bs cs) : Rearranged late as cs :=
  ⟨h'.perm.trans h.perm, h'.late_same.trans h.late_same, h'.others_same.trans h.others_same⟩

theorem Rearranged.swap {a b : A} (ha : late a) (hb : ¬late b) (rest : List A) :
    Rearranged late (a :: b :: rest) (b :: a :: rest) := by
  refine ⟨.swap a b rest, ?_, ?_⟩
  · simp only [List.filter_cons, ha, hb, decide_true, decide_false, if_true, Bool.false_eq_true,
      if_false]
  · simp only [List.filter_cons, ha, hb, not_true_eq_false, not_false_eq_true, decide_true,
      decide_false, if_true, Bool.false_eq_true, if_false]

variable (step guard late early) in
/-- In the states of the invariant, an action that can wait may change places with one that
could go first and follows it, and the two come out in the same state. -/
structure Swaps (I : S → Prop) : Prop where
  kept : ∀ s a t, I s → guard s a → step a s = .ok t → I t
  disjoint : ∀ a, early a → ¬late a
  swap : ∀ s a t b u, I s → late a → early b → guard s a → step a s = .ok t → guard t b →
    step b t = .ok u → guard s b ∧ ∃ v, step b s = .ok v ∧ guard v a ∧ step a v = .ok u

variable {I : S → Prop} {s t u : S}

/-- An action that can wait is carried past all that could go first. -/
theorem Swaps.insert [DecidablePred early] (h : Swaps step guard late early I) {a : A} {as : List A}
    (hI : I s) (ha : late a) (hg : guard s a) (hs : step a s = .ok t)
    (hr : Runs step guard as t u) (hd : Deferred late early as) :
    ∃ bs, Runs step guard bs s u ∧ Deferred late early bs ∧ Rearranged late (a :: as) bs := by
  induction as generalizing s t with
  | nil =>
    cases runs_nil.mp hr
    exact ⟨[a], runs_cons.mpr ⟨hg, _, hs, .nil⟩, List.IsChain.singleton a, .refl _⟩
  | cons b as ih =>
    by_cases hb : early b
    · obtain ⟨hgb, w, hw, hr⟩ := runs_cons.mp hr
      obtain ⟨hgb', v, hv, hga, hav⟩ := h.swap s a t b w hI ha hb hg hs hgb hw
      obtain ⟨bs, hbs, hdb, hre⟩ := ih (h.kept s b v hI hgb' hv) hga hav hr hd.of_cons
      have hnot := h.disjoint b hb
      refine ⟨b :: bs, runs_cons.mpr ⟨hgb', v, hv, hbs⟩, hdb.cons_of_not_late hnot, ?_⟩
      exact (Rearranged.swap ha hnot as).trans (hre.cons b)
    · exact ⟨a :: b :: as, runs_cons.mpr ⟨hg, t, hs, hr⟩, hd.cons fun hab => hb hab.2, .refl _⟩

/-- Every run is one in which the actions that can wait do wait, with the same end. -/
theorem Swaps.defer [DecidablePred early] (h : Swaps step guard late early I) {as : List A}
    (hI : I s) (hr : Runs step guard as s t) :
    ∃ bs, Runs step guard bs s t ∧ Deferred late early bs ∧ Rearranged late as bs := by
  induction as generalizing s with
  | nil => exact ⟨[], hr, List.IsChain.nil, .refl _⟩
  | cons a as ih =>
    obtain ⟨hg, u, hu, hr⟩ := runs_cons.mp hr
    obtain ⟨bs, hbs, hd, hre⟩ := ih (h.kept s a u hI hg hu) hr
    by_cases ha : late a
    · obtain ⟨cs, hcs, hdc, hrc⟩ := h.insert hI ha hg hu hbs hd
      exact ⟨cs, hcs, hdc, (hre.cons a).trans hrc⟩
    · exact ⟨a :: bs, runs_cons.mpr ⟨hg, u, hu, hbs⟩, hd.cons_of_not_late ha, hre.cons a⟩

end Iuring.Lib.Transition
