import Mathlib.Logic.Relation
import Iuring.Lib.Checked

namespace Iuring.Lib.Transition

variable {S A E : Type} (step : A → S → Except E S)

/-- One successful step whose action the guard admits in the current state. -/
def Next (guard : S → A → Prop) (s t : S) : Prop := ∃ a, guard s a ∧ step a s = .ok t

/-- Runs of any length all of whose steps meet the guard. -/
def Reaches (guard : S → A → Prop) : S → S → Prop := Relation.ReflTransGen (Next step guard)

/-- The guard that admits every action. -/
def Free (_ : S) (_ : A) : Prop := True

instance (s : S) (a : A) : Decidable (Free s a) := isTrue trivial

variable {step} {guard stronger : S → A → Prop} {s t u : S}

theorem Reaches.refl : Reaches step guard s s := Relation.ReflTransGen.refl

theorem Reaches.tail (h : Reaches step guard s t) {a : A} (ha : guard t a) (ht : step a t = .ok u) :
    Reaches step guard s u :=
  Relation.ReflTransGen.tail h ⟨a, ha, ht⟩

theorem Reaches.trans (h : Reaches step guard s t) (h' : Reaches step guard t u) :
    Reaches step guard s u :=
  Relation.ReflTransGen.trans h h'

theorem Reaches.weaken (h : Reaches step stronger s t) (hle : ∀ s a, stronger s a → guard s a) :
    Reaches step guard s t := by
  induction h with
  | refl => exact .refl
  | tail _ hlast ih =>
    obtain ⟨a, ha, ht⟩ := hlast
    exact ih.tail (hle _ a ha) ht

/-- What every guarded step preserves, every guarded run preserves. -/
theorem Reaches.invariant {I : S → Prop} (h : Reaches step guard s t)
    (hstep : ∀ s a t, I s → guard s a → step a s = .ok t → I t) (hs : I s) : I t := by
  induction h with
  | refl => exact hs
  | tail _ hn ih =>
    obtain ⟨a, ha, ht⟩ := hn
    exact hstep _ a _ ih ha ht

variable (step) in
/-- The listed actions are admitted and succeed one after the other, and the
state they lead to has the property. -/
def Leads (guard : S → A → Prop) (P : S → Prop) : List A → S → Prop
  | [], s => P s
  | a :: as, s => guard s a ∧ match step a s with
    | .ok t => Leads guard P as t
    | .error _ => False

theorem leads_cons {P : S → Prop} {a : A} {as : List A} : Leads step guard P (a :: as) s ↔
    guard s a ∧ ∃ t, step a s = .ok t ∧ Leads step guard P as t := by
  cases h : step a s <;> simp only [Leads, h, reduceCtorEq, false_and, exists_false,
    Except.ok.injEq, exists_eq_left']

theorem leads_single {P : S → Prop} {a : A} :
    Leads step guard P [a] s ↔ guard s a ∧ ∃ t, step a s = .ok t ∧ P t := leads_cons

instance Leads.decidable [∀ s a, Decidable (guard s a)] {P : S → Prop} [DecidablePred P] :
    ∀ (as : List A) (s : S), Decidable (Leads step guard P as s)
  | [], s => inferInstanceAs (Decidable (P s))
  | a :: as, s =>
    match h : step a s with
    | .ok t =>
      have := Leads.decidable (P := P) as t
      decidable_of_iff (guard s a ∧ Leads step guard P as t) (by simp only [Leads, h])
    | .error _ => isFalse (by simp only [Leads, h, and_false, not_false_eq_true])

variable (step guard) in
/-- The listed actions, admitted one after the other, lead from one state to the other. -/
def Runs (as : List A) (s t : S) : Prop := Leads step guard (fun u => u = t) as s

theorem Runs.nil : Runs step guard [] s s := rfl

theorem runs_nil : Runs step guard [] s t ↔ s = t := Iff.rfl

theorem runs_cons {a : A} {as : List A} : Runs step guard (a :: as) s t ↔
    guard s a ∧ ∃ u, step a s = .ok u ∧ Runs step guard as u t := leads_cons

theorem Runs.single {a : A} (ha : guard s a) (ht : step a s = .ok t) : Runs step guard [a] s t :=
  runs_cons.mpr ⟨ha, t, ht, .nil⟩

theorem Runs.append {as bs : List A} (h : Runs step guard as s t) (h' : Runs step guard bs t u) :
    Runs step guard (as ++ bs) s u := by
  induction as generalizing s with
  | nil => exact runs_nil.mp h ▸ h'
  | cons a as ih =>
    obtain ⟨ha, v, hv, hr⟩ := runs_cons.mp h
    exact runs_cons.mpr ⟨ha, v, hv, ih hr⟩

theorem Runs.weaken {as : List A} (h : Runs step stronger as s t)
    (hle : ∀ s a, stronger s a → guard s a) : Runs step guard as s t := by
  induction as generalizing s with
  | nil => exact h
  | cons a as ih =>
    obtain ⟨ha, u, hu, hr⟩ := runs_cons.mp h
    exact runs_cons.mpr ⟨hle s a ha, u, hu, ih hr⟩

variable (step guard) in
theorem runs_of_leads (P : S → Prop) (as : List A) (s : S) (h : Leads step guard P as s) :
    ∃ t, Runs step guard as s t ∧ P t := by
  induction as generalizing s with
  | nil => exact ⟨s, .nil, h⟩
  | cons a as ih =>
    obtain ⟨ha, u, hu, h⟩ := leads_cons.mp h
    obtain ⟨t, ht, hp⟩ := ih u h
    exact ⟨t, runs_cons.mpr ⟨ha, u, hu, ht⟩, hp⟩

theorem Runs.reaches {as : List A} (h : Runs step guard as s t) : Reaches step guard s t := by
  induction as generalizing s with
  | nil => exact runs_nil.mp h ▸ .refl
  | cons a as ih =>
    obtain ⟨ha, u, hu, hr⟩ := runs_cons.mp h
    exact (Reaches.refl.tail ha hu).trans (ih hr)

/-- What holds of the actions taken so far and the state, and is preserved by every
guarded step, holds at the end of a run. -/
theorem Runs.invariant {I : List A → S → Prop} {as : List A} (h : Runs step guard as s t)
    (before : List A)
    (hstep : ∀ as s a t, I as s → guard s a → step a s = .ok t → I (as ++ [a]) t)
    (hs : I before s) : I (before ++ as) t := by
  induction as generalizing s before with
  | nil =>
    rw [List.append_nil]
    exact runs_nil.mp h ▸ hs
  | cons a as ih =>
    obtain ⟨ha, u, hu, hr⟩ := runs_cons.mp h
    have hu := ih hr (before ++ [a]) (hstep before s a u hs ha hu)
    rwa [List.append_assoc] at hu

variable (step) in
/-- What the steps of the listed actions produce, one after the other. -/
def record {B : Type} (f : S → S → List B) : List A → S → List B
  | [], _ => []
  | a :: as, s =>
    match step a s with
    | .ok t => f s t ++ record f as t
    | .error _ => []

theorem Runs.record_append {B : Type} {f : S → S → List B} {as bs : List A}
    (h : Runs step guard as s t) :
    record step f (as ++ bs) s = record step f as s ++ record step f bs t := by
  induction as generalizing s with
  | nil => exact runs_nil.mp h ▸ rfl
  | cons a as ih =>
    obtain ⟨_, u, hu, hr⟩ := runs_cons.mp h
    simp only [record, List.cons_append, hu, ih hr, List.append_assoc]

theorem record_single {B : Type} {f : S → S → List B} {a : A} (h : step a s = .ok t) :
    record step f [a] s = f s t := by
  simp only [record, h, List.append_nil]

variable (step guard) in
theorem reaches_of_leads (P : S → Prop) (as : List A) (s : S) (h : Leads step guard P as s) :
    ∃ t, Reaches step guard s t ∧ P t := by
  obtain ⟨t, ht, hp⟩ := runs_of_leads step guard P as s h
  exact ⟨t, ht.reaches, hp⟩

end Iuring.Lib.Transition
