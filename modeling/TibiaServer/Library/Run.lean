import Mathlib.Data.List.Basic
/-!
# Runs of a partial step function

A system is given by `step : σ → α → Option σ`: the action `a` is enabled in
`s` exactly when `step s a` is a state.  Scheduling choices are actions, so a
run of the system under every interleaving is a run over every action list.
The lemmas below turn what one step preserves into what a whole run preserves,
and compare a property of every state reached with a guard on every step taken.
-/

namespace TibiaServer.Library.Run

variable {σ α : Type*} {step : σ → α → Option σ}

/-- Take the actions one after the other; `none` as soon as one is disabled. -/
def run (step : σ → α → Option σ) : σ → List α → Option σ
  | s, [] => some s
  | s, a :: as => (step s a).bind fun t => run step t as

@[simp] theorem run_nil (s : σ) : run step s [] = some s := rfl

@[simp] theorem run_cons (s : σ) (a : α) (as : List α) :
    run step s (a :: as) = (step s a).bind fun t => run step t as := rfl

theorem run_cons_eq_some {s u : σ} {a : α} {as : List α} :
    run step s (a :: as) = some u ↔
      ∃ t, step s a = some t ∧ run step t as = some u := by
  simp [Option.bind_eq_some_iff]

theorem run_append (s : σ) (as bs : List α) :
    run step s (as ++ bs) = (run step s as).bind fun t => run step t bs := by
  induction as generalizing s with
  | nil => rfl
  | cons a as ih =>
    simp only [List.cons_append, run_cons, Option.bind_assoc]
    exact congrArg (Option.bind (step s a)) (funext fun t => ih t)

/-- A property kept by every step is kept by every run. -/
theorem invariant_run {P : σ → Prop}
    (hstep : ∀ s a t, P s → step s a = some t → P t) :
    ∀ (as : List α) (s u : σ), P s → run step s as = some u → P u := by
  intro as
  induction as with
  | nil =>
    intro s u hs hrun
    obtain rfl : s = u := by simpa using hrun
    exact hs
  | cons a as ih =>
    intro s u hs hrun
    obtain ⟨t, ht, hrun⟩ := run_cons_eq_some.mp hrun
    exact ih t u (hstep s a t hs ht) hrun

/-- `G` holds of every step that the run takes. -/
def EachStep (step : σ → α → Option σ) (G : σ → α → Prop) : σ → List α → Prop
  | _, [] => True
  | s, a :: as => ∀ t, step s a = some t → G s a ∧ EachStep step G t as

/-- A condition on the actions alone. -/
theorem eachStep_of_forall {p : α → Prop} {as : List α} (h : ∀ a ∈ as, p a) (s : σ) :
    EachStep step (fun _ a => p a) s as := by
  induction as generalizing s with
  | nil => exact trivial
  | cons a as ih =>
    intro t _
    exact ⟨h a List.mem_cons_self, ih (fun b hb => h b (List.mem_cons_of_mem _ hb)) t⟩

/-- The steps behind the first part of a run. -/
theorem EachStep.drop {G : σ → α → Prop} {as bs : List α} {s u : σ}
    (h : EachStep step G s (as ++ bs)) (hrun : run step s as = some u) :
    EachStep step G u bs := by
  induction as generalizing s with
  | nil =>
    obtain rfl : s = u := by simpa using hrun
    exact h
  | cons a as ih =>
    obtain ⟨t, ht, hrun⟩ := run_cons_eq_some.mp hrun
    exact ih (h t ht).2 hrun

/-- Where the states that `G` lets through satisfy `I`, two conditions on the steps need only
agree in states with `I`. -/
theorem eachStep_congr {I : σ → Prop} {G G' : σ → α → Prop}
    (hI : ∀ s a t, I s → G s a → step s a = some t → I t)
    (hG : ∀ s a t, I s → step s a = some t → (G s a ↔ G' s a)) :
    ∀ (as : List α) (s : σ), I s → (EachStep step G s as ↔ EachStep step G' s as) := by
  intro as
  induction as with
  | nil => exact fun _ _ => Iff.rfl
  | cons a as ih =>
    intro s hs
    refine forall₂_congr fun t ht => ?_
    rw [hG s a t hs ht]
    refine and_congr_right fun h => ?_
    exact ih t (hI s a t hs ((hG s a t hs ht).mpr h) ht)

/-- `P` holds of every state that the run reaches, the first one included. -/
def Always (step : σ → α → Option σ) (P : σ → Prop) : σ → List α → Prop
  | s, [] => P s
  | s, a :: as => P s ∧ ∀ t, step s a = some t → Always step P t as

theorem Always.head {P : σ → Prop} {s : σ} {as : List α}
    (h : Always step P s as) : P s := by
  cases as with
  | nil => exact h
  | cons a as => exact h.1

theorem Always.mono {P Q : σ → Prop} (h : ∀ s, P s → Q s) :
    ∀ {as : List α} {s : σ}, Always step P s as → Always step Q s as := by
  intro as
  induction as with
  | nil => exact fun hs => h _ hs
  | cons a as ih => exact fun hs => ⟨h _ hs.1, fun t ht => ih (hs.2 t ht)⟩

theorem Always.last {P : σ → Prop} :
    ∀ {as : List α} {s u : σ}, Always step P s as → run step s as = some u → P u := by
  intro as
  induction as with
  | nil =>
    intro s u h hrun
    obtain rfl : s = u := by simpa using hrun
    exact h
  | cons a as ih =>
    intro s u h hrun
    obtain ⟨t, ht, hrun⟩ := run_cons_eq_some.mp hrun
    exact ih (h.2 t ht) hrun

/-- What an invariant implies holds throughout every run. -/
theorem always_of_invariant {I P : σ → Prop} (hI : ∀ s a t, I s → step s a = some t → I t)
    (hP : ∀ s, I s → P s) : ∀ (as : List α) (s : σ), I s → Always step P s as := by
  intro as
  induction as with
  | nil => exact fun s hs => hP s hs
  | cons a as ih => exact fun s hs => ⟨hP s hs, fun t ht => ih t (hI s a t hs ht)⟩

/-- Where the enabled actions are the steps, and from a state with the invariant each of them
returns a state with it, every state of every run has it and lets every enabled action return. -/
theorem always_of_returns {I P : σ → Prop} {enabled : σ → α → Prop}
    (hstep : ∀ s a t, step s a = some t → enabled s a)
    (hact : ∀ s a, I s → enabled s a → ∃ t, step s a = some t ∧ I t) (hP : ∀ s, I s → P s)
    (as : List α) (s : σ) (hs : I s) :
    Always step (fun s => P s ∧ ∀ a, enabled s a → (step s a).isSome) s as := by
  refine always_of_invariant (I := I) (fun s a t hs ht => ?_) (fun s hs => ⟨hP s hs, ?_⟩) as s hs
  · obtain ⟨u, hu, hI⟩ := hact s a hs (hstep s a t ht)
    exact Option.some.inj (hu.symm.trans ht) ▸ hI
  · intro a ha
    obtain ⟨t, ht, -⟩ := hact s a hs ha
    exact Option.isSome_iff_exists.mpr ⟨t, ht⟩

/-- If, from the states where `I` and `P` hold, a step that `H` admits keeps `P` exactly when
the guard `G` admits it, then a run of such steps stays inside `P` exactly when `G` admits
each of them. -/
theorem always_iff_eachStep_of {I P : σ → Prop} {H G : σ → α → Prop}
    (hI : ∀ s a t, I s → H s a → step s a = some t → I t)
    (hstep : ∀ s a t, I s → P s → H s a → step s a = some t → (P t ↔ G s a)) :
    ∀ (as : List α) (s : σ), I s → P s → EachStep step H s as →
      (Always step P s as ↔ EachStep step G s as) := by
  intro as
  induction as with
  | nil =>
    intro s _ hP _
    exact iff_of_true hP trivial
  | cons a as ih =>
    intro s hIs hP hadmits
    constructor
    · intro h t ht
      obtain ⟨hH, hlater⟩ := hadmits t ht
      have hPt : P t := (h.2 t ht).head
      exact ⟨(hstep s a t hIs hP hH ht).mp hPt,
        (ih t (hI s a t hIs hH ht) hPt hlater).mp (h.2 t ht)⟩
    · intro h
      refine ⟨hP, fun t ht => ?_⟩
      obtain ⟨hH, hlater⟩ := hadmits t ht
      obtain ⟨hG, hrest⟩ := h t ht
      have hPt : P t := (hstep s a t hIs hP hH ht).mpr hG
      exact (ih t (hI s a t hIs hH ht) hPt hlater).mpr hrest

/-- Here `I` is an invariant that needs no guard. -/
theorem always_iff_eachStep {I P : σ → Prop} {G : σ → α → Prop}
    (hI : ∀ s a t, I s → step s a = some t → I t)
    (hstep : ∀ s a t, I s → P s → step s a = some t → (P t ↔ G s a)) (as : List α) (s : σ)
    (hs : I s) (hP : P s) : Always step P s as ↔ EachStep step G s as :=
  always_iff_eachStep_of (H := fun _ _ => True) (fun s a t h _ => hI s a t h)
    (fun s a t h hP _ => hstep s a t h hP) as s hs hP
    (eachStep_of_forall (p := fun _ => True) (fun _ _ => trivial) s)

/-- A property kept by every guarded step holds throughout a guarded run. -/
theorem always_of_eachStep {P : σ → Prop} {G : σ → α → Prop}
    (hstep : ∀ s a t, P s → G s a → step s a = some t → P t) :
    ∀ (as : List α) (s : σ), P s → EachStep step G s as → Always step P s as := by
  intro as
  induction as with
  | nil => exact fun _ hs _ => hs
  | cons a as ih =>
    intro s hs h
    refine ⟨hs, fun t ht => ?_⟩
    exact ih t (hstep s a t hs (h t ht).1 ht) (h t ht).2

/-- When a guarded step keeps the invariant `I` and an unguarded one breaks `P`, a run stays
inside `P` exactly as long as every step is guarded. -/
theorem always_iff_of_breaks {I P : σ → Prop} {G : σ → α → Prop} (hP : ∀ s, I s → P s)
    (hI : ∀ s a t, I s → G s a → step s a = some t → I t)
    (hbreaks : ∀ s a t, I s → ¬G s a → step s a = some t → ¬P t) :
    ∀ (as : List α) (s : σ), I s → (Always step P s as ↔ EachStep step G s as) := by
  intro as
  induction as with
  | nil => exact fun s hs => iff_of_true (hP s hs) trivial
  | cons a as ih =>
    intro s hs
    constructor
    · intro h t ht
      have hG : G s a := by
        by_contra hG
        exact hbreaks s a t hs hG ht (h.2 t ht).head
      exact ⟨hG, (ih t (hI s a t hs hG ht)).mp (h.2 t ht)⟩
    · intro h
      refine ⟨hP s hs, fun t ht => ?_⟩
      obtain ⟨hG, hrest⟩ := h t ht
      exact (ih t (hI s a t hs hG ht)).mpr hrest

end TibiaServer.Library.Run
