/-
# `Libjapi.Runs` — runs of a machine given by a partial step function

A machine is a function `step : σ → ε → Option σ`: in state `s` the event `e`
leads to `s'`, or cannot happen.  `run step s es` performs a list of events.
The rules every proof about runs uses are here, once: an invariant kept by
each step holds after every run (`run_invariant`), and an invariant kept by
the steps that meet a condition holds after every run whose steps all meet it
(`run_invariant_of_meets`).  The condition is one on the state *before* a step
and its event, so it says nothing about what the step computes.  Where a step
that does not meet it leads to a bad state, it is exactly what the states of a
run need to be good (`run_good_iff`).  A machine each of whose steps is a run of
a second one has only runs of the second one (`run_simulation`).
-/
import Mathlib.Logic.Basic

namespace Libjapi

section Runs

variable {σ ε : Type*} (step : σ → ε → Option σ)

/-- Perform the events in order, as long as each of them can happen. -/
def run : σ → List ε → Option σ
  | s, [] => some s
  | s, e :: es => (step s e).bind fun s' => run s' es

/-- Every step of the run meets the condition `cond`. -/
def Meets (cond : σ → ε → Prop) : σ → List ε → Prop
  | _, [] => True
  | s, e :: es => cond s e ∧ ∀ s', step s e = some s' → Meets cond s' es

variable {step}

@[simp] theorem run_nil (s : σ) : run step s [] = some s := rfl

theorem run_cons {s s'' : σ} {e : ε} {es : List ε} :
    run step s (e :: es) = some s'' ↔
      ∃ s', step s e = some s' ∧ run step s' es = some s'' := by
  simp only [run, Option.bind_eq_some_iff]

theorem run_append {s s'' : σ} {es es' : List ε} :
    run step s (es ++ es') = some s'' ↔
      ∃ s', run step s es = some s' ∧ run step s' es' = some s'' := by
  induction es generalizing s with
  | nil => simp
  | cons e es ih =>
      simp only [List.cons_append, run_cons, ih]
      constructor
      · rintro ⟨s₁, h₁, s₂, h₂, h₃⟩
        exact ⟨s₂, ⟨s₁, h₁, h₂⟩, h₃⟩
      · rintro ⟨s₂, ⟨s₁, h₁, h₂⟩, h₃⟩
        exact ⟨s₁, h₁, s₂, h₂, h₃⟩

/-- **An invariant kept by every step that meets the condition holds after
every run whose steps all meet it.** -/
theorem run_invariant_of_meets (cond : σ → ε → Prop) {Inv : σ → Prop}
    (hstep : ∀ {s e s'}, Inv s → cond s e → step s e = some s' → Inv s')
    {es : List ε} :
    ∀ {s s' : σ}, Inv s → Meets step cond s es → run step s es = some s' → Inv s' := by
  induction es with
  | nil =>
      intro s s' hs _ hrun
      cases hrun
      exact hs
  | cons e es ih =>
      intro s s' hs hm hrun
      obtain ⟨s₁, h₁, h₂⟩ := run_cons.mp hrun
      exact ih (hstep hs hm.1 h₁) (hm.2 s₁ h₁) h₂

theorem meets_of_forall {P : ε → Prop} {es : List ε} :
    ∀ {s : σ}, (∀ e ∈ es, P e) → Meets step (fun _ e => P e) s es := by
  induction es with
  | nil => exact fun _ => trivial
  | cons e es ih =>
      intro s h
      exact ⟨h e (by simp), fun _ _ => ih fun e' he' => h e' (by simp [he'])⟩

/-- **An invariant kept by every step holds after every run.** -/
theorem run_invariant {Inv : σ → Prop}
    (hstep : ∀ {s e s'}, Inv s → step s e = some s' → Inv s')
    {es : List ε} {s s' : σ} (hs : Inv s) (hrun : run step s es = some s') : Inv s' := by
  exact run_invariant_of_meets (fun _ _ => True) (fun hi _ h => hstep hi h) hs
    (meets_of_forall fun _ _ => trivial) hrun

theorem run_invariant_back {Inv : σ → Prop}
    (hstep : ∀ {s e s'}, Inv s' → step s e = some s' → Inv s) {es : List ε} :
    ∀ {s s' : σ}, Inv s' → run step s es = some s' → Inv s := by
  induction es with
  | nil =>
      intro s s' hs' hrun
      cases hrun
      exact hs'
  | cons e es ih =>
      intro s s' hs' hrun
      obtain ⟨s₁, h₁, h₂⟩ := run_cons.mp hrun
      exact hstep (ih hs' h₂) h₁

theorem Meets.left {cond : σ → ε → Prop} {es es' : List ε} :
    ∀ {s : σ}, Meets step cond s (es ++ es') → Meets step cond s es := by
  induction es with
  | nil => exact fun _ => trivial
  | cons e es ih =>
      intro s h
      exact ⟨h.1, fun s' hs' => ih (h.2 s' hs')⟩

theorem Meets.and {cond cond' : σ → ε → Prop} {es : List ε} :
    ∀ {s : σ}, Meets step cond s es → Meets step cond' s es →
      Meets step (fun s e => cond s e ∧ cond' s e) s es := by
  induction es with
  | nil => exact fun _ _ => trivial
  | cons e es ih =>
      intro s h h'
      exact ⟨⟨h.1, h'.1⟩, fun s' hs' => ih (h.2 s' hs') (h'.2 s' hs')⟩

theorem Meets.cons {cond : σ → ε → Prop} {s s' : σ} {e : ε} {es : List ε} (hcond : cond s e)
    (hstep : step s e = some s') (h : Meets step cond s' es) : Meets step cond s (e :: es) := by
  refine ⟨hcond, ?_⟩
  intro s'' hs''
  rw [hstep] at hs''
  cases hs''
  exact h

/-- Whether a run meets a condition can be found out by performing it. -/
instance Meets.decidable {cond : σ → ε → Prop} [∀ s e, Decidable (cond s e)] :
    ∀ (s : σ) (es : List ε), Decidable (Meets step cond s es)
  | _, [] => .isTrue trivial
  | s, e :: es =>
      match h : step s e with
      | none =>
          decidable_of_iff (cond s e)
            ⟨fun hcond => ⟨hcond, fun _ hs' => nomatch h.symm.trans hs'⟩, And.left⟩
      | some s' =>
          have : Decidable (Meets step cond s' es) := Meets.decidable s' es
          decidable_of_iff (cond s e ∧ Meets step cond s' es)
            ⟨fun hall => Meets.cons hall.1 h hall.2, fun hall => ⟨hall.1, hall.2 s' h⟩⟩

/-- **All states of a run are good exactly if its steps meet the condition**,
where a step from a good state to a good state needs the condition; what is assumed
of the steps may help with both. -/
theorem run_good_iff_of_meets (assumed : σ → ε → Prop) {cond : σ → ε → Prop} {Inv Good : σ → Prop}
    (hgood : ∀ {s}, Inv s → Good s)
    (hstep : ∀ {s e s'}, Inv s → assumed s e → cond s e → step s e = some s' → Inv s')
    (hneeds : ∀ {s e s'}, Inv s → assumed s e → step s e = some s' → Good s' → cond s e)
    {es : List ε} {s s' : σ} (hs : Inv s) (hassumed : Meets step assumed s es)
    (hrun : run step s es = some s') :
    (∀ es₁ es₂ s₁, es = es₁ ++ es₂ → run step s es₁ = some s₁ → Good s₁) ↔
      Meets step cond s es := by
  constructor
  · intro hall
    induction es generalizing s with
    | nil => trivial
    | cons e es ih =>
        obtain ⟨s₁, h₁, h₂⟩ := run_cons.mp hrun
        have hgood₁ : Good s₁ := hall [e] es s₁ rfl (run_cons.mpr ⟨s₁, h₁, rfl⟩)
        have hcond := hneeds hs hassumed.1 h₁ hgood₁
        refine Meets.cons hcond h₁ (ih (hstep hs hassumed.1 hcond h₁) (hassumed.2 s₁ h₁) h₂ ?_)
        rintro es₁ es₂ s₂ rfl hrun₂
        exact hall (e :: es₁) es₂ s₂ rfl (run_cons.mpr ⟨s₁, h₁, hrun₂⟩)
  · rintro hmeets es₁ es₂ s₁ rfl h₁
    exact hgood (run_invariant_of_meets (fun s e => assumed s e ∧ cond s e)
      (fun hi hboth h => hstep hi hboth.1 hboth.2 h) hs (hassumed.left.and hmeets.left) h₁)

/-- The same with nothing assumed. -/
theorem run_good_iff {cond : σ → ε → Prop} {Inv Good : σ → Prop}
    (hgood : ∀ {s}, Inv s → Good s)
    (hstep : ∀ {s e s'}, Inv s → cond s e → step s e = some s' → Inv s')
    (hneeds : ∀ {s e s'}, Inv s → step s e = some s' → Good s' → cond s e)
    {es : List ε} {s s' : σ} (hs : Inv s) (hrun : run step s es = some s') :
    (∀ es₁ es₂ s₁, es = es₁ ++ es₂ → run step s es₁ = some s₁ → Good s₁) ↔
      Meets step cond s es :=
  run_good_iff_of_meets (fun _ _ => True) hgood (fun hi _ hcond h => hstep hi hcond h)
    (fun hi _ h hg => hneeds hi h hg) hs (meets_of_forall fun _ _ => trivial) hrun

/-- **Of the steps that lower a rank, a run has at most as many as the rank**, if
no other step raises it. -/
theorem run_rank_le {Inv : σ → Prop} {P : ε → Prop} {p : ε → Bool} {rank : σ → Nat}
    (hinv : ∀ {s e s'}, Inv s → P e → step s e = some s' → Inv s')
    (hrank : ∀ {s e s'}, Inv s → P e → step s e = some s' →
      (if p e then 1 else 0) + rank s' ≤ rank s) {es : List ε} :
    ∀ {s s' : σ}, Inv s → (∀ e ∈ es, P e) → run step s es = some s' →
      es.countP p + rank s' ≤ rank s := by
  induction es with
  | nil =>
      intro s s' _ _ hrun
      cases hrun
      simp
  | cons e es ih =>
      intro s s' hs hP hrun
      obtain ⟨s₁, h₁, h₂⟩ := run_cons.mp hrun
      have hfirst := hrank hs (hP e (by simp)) h₁
      have hrest := ih (hinv hs (hP e (by simp)) h₁) (fun e' he' => hP e' (by simp [he'])) h₂
      rw [List.countP_cons]
      split <;> simp_all <;> omega

variable (step) in
/-- What is observed at the steps of a run, in order. -/
def observed {α : Type*} (obs : σ → ε → Option α) : σ → List ε → List α
  | _, [] => []
  | s, e :: es => (obs s e).toList ++ ((step s e).map fun s' => observed obs s' es).getD []

/-- **What every step that meets a condition keeps together with what was observed
so far** holds after every run whose steps all meet it, together with all that was
observed. -/
theorem run_observed_of_meets {α : Type*} {obs : σ → ε → Option α} (cond : σ → ε → Prop)
    {J : List α → σ → Prop}
    (hstep : ∀ {l s e s'}, J l s → cond s e → step s e = some s' → J (l ++ (obs s e).toList) s')
    {es : List ε} :
    ∀ {l : List α} {s s' : σ}, J l s → Meets step cond s es → run step s es = some s' →
      J (l ++ observed step obs s es) s' := by
  induction es with
  | nil =>
      intro l s s' hJ _ hrun
      cases hrun
      simpa [observed] using hJ
  | cons e es ih =>
      intro l s s' hJ hmeets hrun
      obtain ⟨s₁, h₁, h₂⟩ := run_cons.mp hrun
      have hrest := ih (hstep hJ hmeets.1 h₁) (hmeets.2 s₁ h₁) h₂
      simpa only [observed, h₁, Option.map_some, Option.getD_some, List.append_assoc] using hrest

theorem run_observed {α : Type*} {obs : σ → ε → Option α} {P : ε → Prop}
    {J : List α → σ → Prop}
    (hstep : ∀ {l s e s'}, J l s → P e → step s e = some s' → J (l ++ (obs s e).toList) s')
    {es : List ε} {l : List α} {s s' : σ} (hJ : J l s) (hP : ∀ e ∈ es, P e)
    (hrun : run step s es = some s') : J (l ++ observed step obs s es) s' :=
  run_observed_of_meets (fun _ e => P e) hstep hJ (meets_of_forall hP) hrun

/-- **A machine whose steps are runs of another one, has runs that are runs of
the other one.**  `R` relates the states, `P` is what the events of the run meet
and `Q` what follows for those of the other run. -/
theorem run_simulation {τ δ : Type*} {step' : τ → δ → Option τ} {R : σ → τ → Prop}
    {P : ε → Prop} {Q : δ → Prop}
    (hsim : ∀ {s t e s'}, R s t → P e → step s e = some s' →
      ∃ ds t', (∀ d ∈ ds, Q d) ∧ run step' t ds = some t' ∧ R s' t')
    {es : List ε} :
    ∀ {s t s'}, R s t → (∀ e ∈ es, P e) → run step s es = some s' →
      ∃ ds t', (∀ d ∈ ds, Q d) ∧ run step' t ds = some t' ∧ R s' t' := by
  induction es with
  | nil =>
      intro s t s' hR _ hrun
      cases hrun
      exact ⟨[], t, by simp, rfl, hR⟩
  | cons e es ih =>
      intro s t s' hR hP hrun
      obtain ⟨s₁, h₁, h₂⟩ := run_cons.mp hrun
      obtain ⟨ds₁, t₁, hQ₁, hrun₁, hR₁⟩ := hsim hR (hP e (by simp)) h₁
      obtain ⟨ds₂, t₂, hQ₂, hrun₂, hR₂⟩ := ih hR₁ (fun e' he' => hP e' (by simp [he'])) h₂
      refine ⟨ds₁ ++ ds₂, t₂, ?_, run_append.mpr ⟨t₁, hrun₁, hrun₂⟩, hR₂⟩
      intro d hd
      rcases List.mem_append.mp hd with hd | hd
      · exact hQ₁ d hd
      · exact hQ₂ d hd

/-! ## Operations one after the other -/

section

variable {ω α : Type*} (perform : σ → ω → σ × List α)

/-- The operations performed one after the other: the state they lead to, and what
they show. -/
def oneByOne : σ → List ω → σ × List α
  | s, [] => (s, [])
  | s, o :: os =>
      let r := oneByOne (perform s o).1 os
      (r.1, (perform s o).2 ++ r.2)

variable {perform}

theorem oneByOne_concat (os : List ω) (o : ω) :
    ∀ s : σ, oneByOne perform s (os ++ [o]) =
      ((perform (oneByOne perform s os).1 o).1,
        (oneByOne perform s os).2 ++ (perform (oneByOne perform s os).1 o).2) := by
  induction os with
  | nil =>
      intro s
      simp [oneByOne]
  | cons o' os ih =>
      intro s
      rw [List.cons_append, oneByOne, ih, oneByOne]
      simp only [List.append_assoc]

end

end Runs

end Libjapi
