import Mathlib

/-! # Machines and loops

    Two ways to run a state: a machine takes a list of events, each of which
    may be impossible in the present state; a loop repeats its body until a
    condition holds.  The rules here lift what one step does to whole runs.
-/

/-! ### Runs of a machine -/

namespace Machine

variable {σ ε : Type} (step : σ → ε → Option σ)

/-- The state after a list of events, if all of them were possible. -/
def run (s : σ) (es : List ε) : Option σ :=
  es.foldlM step s

/-- A state that some run reaches. -/
def Reachable (init s : σ) : Prop :=
  ∃ es, run step init es = some s

variable {step}

/-- What a step preserves, a run preserves; `ok` restricts the events. -/
theorem run_invariant (I : σ → Prop) (ok : ε → Prop)
    (hstep : ∀ s e s', I s → ok e → step s e = some s' → I s') :
    ∀ (es : List ε) (s s' : σ), I s → (∀ e ∈ es, ok e) → run step s es = some s' → I s' := by
  intro es
  induction es with
  | nil =>
    intro s s' hs _ hrun
    simp only [run, List.foldlM_nil, Option.pure_def, Option.some.injEq] at hrun
    rwa [← hrun]
  | cons e es ih =>
    intro s s' hs hok hrun
    simp only [run, List.foldlM_cons, Option.bind_eq_bind, Option.bind_eq_some_iff] at hrun
    obtain ⟨s1, h1, h2⟩ := hrun
    apply ih s1 s' (hstep s e s1 hs (hok e (by simp)) h1)
    · intro e' he'
      exact hok e' (by simp [he'])
    · exact h2

/-- A state that a run reaches in which every event meets a condition on the state before
    it. -/
inductive ReachableVia (step : σ → ε → Option σ) (ok : σ → ε → Prop) (init : σ) : σ → Prop where
  | init : ReachableVia step ok init init
  | step {s s' : σ} (e : ε) (before : ReachableVia step ok init s) (hok : ok s e)
      (hstep : step s e = some s') : ReachableVia step ok init s'

theorem ReachableVia.invariant {ok : σ → ε → Prop} {init s : σ} (I : σ → Prop) (hinit : I init)
    (hstep : ∀ s e s', I s → ok s e → step s e = some s' → I s')
    (h : ReachableVia step ok init s) : I s := by
  induction h with
  | init => exact hinit
  | step e _ hok he ih => exact hstep _ e _ ih hok he

end Machine

/-! ### Loops -/

namespace Loop

variable {σ : Type} (done : σ → Prop) (body : σ → σ)

/-- The loop `while (!done) body` ends when it is started in `s`. -/
def Halts (s : σ) : Prop :=
  ∃ n, done (body^[n] s)

variable {done body}

theorem halts_of_done {s : σ} (h : done s) : Halts done body s :=
  ⟨0, h⟩

/-- A round does not change whether the loop ends. -/
theorem halts_body {s : σ} (h : ¬done s) : Halts done body s ↔ Halts done body (body s) := by
  constructor
  · rintro ⟨n, hn⟩
    cases n with
    | zero => exact absurd hn h
    | succ n => exact ⟨n, hn⟩
  · rintro ⟨n, hn⟩
    exact ⟨n + 1, hn⟩

/-- A loop ends when each round that is not the last keeps an invariant and
    makes a measure smaller. -/
theorem halts_of_measure {I : σ → Prop} (measure : σ → Nat)
    (hround : ∀ s, I s → ¬done s → I (body s) ∧ measure (body s) < measure s) :
    ∀ s, I s → Halts done body s := by
  intro s
  induction hn : measure s using Nat.strongRecOn generalizing s with
  | _ n ih =>
    intro hs
    by_cases hd : done s
    · exact halts_of_done hd
    · obtain ⟨hI, hlt⟩ := hround s hs hd
      rw [halts_body hd]
      exact ih (measure (body s)) (hn ▸ hlt) (body s) rfl hI

/-- A loop does not end from a set of states that it never leaves and that are
    not final. -/
theorem not_halts_of_trap {I : σ → Prop} (hround : ∀ s, I s → ¬done s ∧ I (body s)) {s : σ}
    (hs : I s) : ¬Halts done body s := by
  rintro ⟨n, hn⟩
  have htrap : ∀ m, I (body^[m] s) := by
    intro m
    induction m with
    | zero => exact hs
    | succ m ih =>
      rw [Function.iterate_succ_apply']
      exact (hround _ ih).2
  exact (hround _ (htrap n)).1 hn

end Loop
