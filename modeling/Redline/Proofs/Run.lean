import Mathlib.Data.List.Forall2
import Redline.Session.Basic

/-!
# Runs that come to an end

A run of a session ends with a value or with a fault.  This module states that a run ends with a
value, and in a world about which something is known, and how such statements are put together for
runs that are made of smaller ones.  It also has the results of a computation over a list, which
fails when it fails for one item.
-/

namespace Redline

/-! ## Results over a list -/

section Results

variable {ε α β : Type} {f : α → Except ε β} {xs : List α} {ys : List β}

theorem exists_of_bind_eq_ok
    {x : Except ε α} {b : β} (h : x >>= f = .ok b) :
    ∃ a, x = .ok a ∧ f a = .ok b := by
  cases x with
  | error e => cases h
  | ok a => exact ⟨a, rfl, h⟩

theorem eq_ok_of_mapError_eq_ok
    {δ : Type} {g : ε → δ} {x : Except ε α} {a : α} (h : x.mapError g = .ok a) :
    x = .ok a := by
  cases x with
  | error e => cases h
  | ok b =>
    cases h
    rfl

theorem forall₂_of_mapM_eq_ok (h : xs.mapM f = .ok ys) :
    List.Forall₂ (fun x y => f x = .ok y) xs ys := by
  induction xs generalizing ys with
  | nil =>
    cases h
    exact .nil
  | cons x xs ih =>
    rw [List.mapM_cons] at h
    obtain ⟨y, hy, h⟩ := exists_of_bind_eq_ok h
    obtain ⟨ys', hys, h⟩ := exists_of_bind_eq_ok h
    cases h
    exact .cons hy (ih hys)

theorem mapM_eq_ok_of_forall₂ (h : List.Forall₂ (fun x y => f x = .ok y) xs ys) :
    xs.mapM f = .ok ys := by
  induction h with
  | nil => rfl
  | cons hx _ ih =>
    rw [List.mapM_cons, hx, ih]
    rfl

theorem exists_of_mem_forall₂
    {R : α → β → Prop} {y : β} (h : List.Forall₂ R xs ys) (hy : y ∈ ys) :
    ∃ x ∈ xs, R x y := by
  induction h with
  | nil => simp at hy
  | cons hx _ ih =>
    rcases List.mem_cons.1 hy with rfl | hy
    · exact ⟨_, List.mem_cons_self, hx⟩
    · obtain ⟨x, hmem, hx⟩ := ih hy
      exact ⟨x, List.mem_cons_of_mem _ hmem, hx⟩

theorem exists_mapM_eq_ok (h : ∀ x ∈ xs, ∃ y, f x = .ok y) : ∃ ys, xs.mapM f = .ok ys := by
  induction xs with
  | nil => exact ⟨[], rfl⟩
  | cons x xs ih =>
    obtain ⟨y, hy⟩ := h x List.mem_cons_self
    obtain ⟨ys, hys⟩ := ih fun x hx => h x (List.mem_cons_of_mem _ hx)
    refine ⟨y :: ys, ?_⟩
    rw [List.mapM_cons, hy, hys]
    rfl

end Results

namespace Run

/-! ## Runs that end with a value -/

variable {σ α β : Type} {s : Session σ}

/-- From every world with `before` the computation ends with a value, and with `after` of the value
and of the world that it leaves. -/
def Ensures
    (s : Session σ) (before : World σ → Prop) (x : Run σ α)
    (after : α → World σ → Prop) : Prop :=
  ∀ w, before w → ∃ a w', x.execute s w = (.ok a, w') ∧ after a w'

theorem execute_bind (x : Run σ α) (f : α → Run σ β) (s : Session σ) (w : World σ) :
    (x >>= f).execute s w =
      match x.execute s w with
      | (.ok a, w') => (f a).execute s w'
      | (.error e, w') => (.error e, w') := by
  have hbind : (x >>= f).execute s w =
      (ExceptT.bindCont (m := StateM (World σ)) (fun a => f a s) (x.execute s w).1 :
        StateM (World σ) _) (x.execute s w).2 := rfl
  rw [hbind]
  rcases x.execute s w with ⟨_ | a, w'⟩
  · rfl
  · rfl

theorem execute_bind_of_ok
    {x : Run σ α} {w w' : World σ} {a : α} (h : x.execute s w = (.ok a, w')) (f : α → Run σ β) :
    (x >>= f).execute s w = (f a).execute s w' := by
  rw [execute_bind, h]

/-- A computation whose value gives way to another one. -/
theorem execute_discard_pure (x : Run σ α) (b : β) (s : Session σ) (w : World σ) :
    (do discard x; pure b : Run σ β).execute s w =
      match x.execute s w with
      | (.ok _, w') => (.ok b, w')
      | (.error e, w') => (.error e, w') := by
  have hdiscard : discard x = x >>= fun _ => pure () := rfl
  rw [hdiscard, execute_bind, execute_bind]
  rcases x.execute s w with ⟨_ | a, w'⟩
  · rfl
  · rfl

theorem world_discard_pure (x : Run σ α) (b : β) (s : Session σ) (w : World σ) :
    ((do discard x; pure b : Run σ β).execute s w).2 = (x.execute s w).2 := by
  rw [execute_discard_pure]
  rcases x.execute s w with ⟨_ | a, w'⟩
  · rfl
  · rfl

/-- When a computation ends with a value, so does each part of it. -/
theorem exists_of_execute_bind
    {x : Run σ α} {f : α → Run σ β} {w w' : World σ} {b : β}
    (h : (x >>= f).execute s w = (.ok b, w')) :
    ∃ a w₁, x.execute s w = (.ok a, w₁) ∧ (f a).execute s w₁ = (.ok b, w') := by
  rw [execute_bind] at h
  split at h
  next a w₁ hrun => exact ⟨a, w₁, hrun, h⟩
  next => cases h

namespace Ensures

theorem pure
    {before : World σ → Prop} {after : α → World σ → Prop} {a : α}
    (h : ∀ w, before w → after a w) :
    Ensures s before (Pure.pure a) after := by
  intro w hw
  exact ⟨a, w, rfl, h w hw⟩

theorem bind
    {before : World σ → Prop} {between : α → World σ → Prop} {after : β → World σ → Prop}
    {x : Run σ α} {f : α → Run σ β}
    (hx : Ensures s before x between) (hf : ∀ a, Ensures s (between a) (f a) after) :
    Ensures s before (x >>= f) after := by
  intro w hw
  obtain ⟨a, w', hrun, hbetween⟩ := hx w hw
  obtain ⟨b, w'', hrun', hafter⟩ := hf a w' hbetween
  refine ⟨b, w'', ?_, hafter⟩
  rw [execute_bind, hrun]
  exact hrun'

theorem discard
    {before : World σ → Prop} {after : World σ → Prop} {x : Run σ α}
    (hx : Ensures s before x fun _ => after) :
    Ensures s before (Functor.discard x) fun _ => after := by
  have heq : Functor.discard x = x >>= fun _ => Pure.pure () := rfl
  rw [heq]
  exact hx.bind fun _ => Ensures.pure fun _ h => h

/-- A condition is kept by all steps over a list when it is kept by each of them. -/
theorem foldlM
    {γ : Type} {step : β → γ → Run σ β} (invariant : List γ → β → World σ → Prop)
    {items : List γ} {b : β}
    (hstep : ∀ item rest b, Ensures s (invariant (item :: rest) b) (step b item) (invariant rest)) :
    Ensures s (invariant items b) (items.foldlM step b) (invariant []) := by
  induction items generalizing b with
  | nil => exact Ensures.pure fun _ h => h
  | cons item rest ih =>
    rw [List.foldlM_cons]
    exact (hstep item rest b).bind fun b' => ih

/-- A loop over a list that goes through all of it. -/
theorem forIn
    {γ : Type} {f : γ → Run σ PUnit} (invariant : List γ → World σ → Prop) (items : List γ)
    (hstep : ∀ item rest, Ensures s (invariant (item :: rest)) (f item) fun _ => invariant rest) :
    Ensures s (invariant items)
      (ForIn.forIn items PUnit.unit fun item _ => do
        f item
        Pure.pure (ForInStep.yield PUnit.unit))
      fun _ => invariant [] := by
  induction items with
  | nil => exact Ensures.pure fun _ h => h
  | cons item rest ih =>
    rw [List.forIn_cons]
    have hfirst : Ensures s (invariant (item :: rest)) (do
        f item
        Pure.pure (ForInStep.yield PUnit.unit))
        fun next w => next = .yield PUnit.unit ∧ invariant rest w :=
      (hstep item rest).bind fun _ => Ensures.pure fun _ h => ⟨rfl, h⟩
    refine hfirst.bind fun next => ?_
    rintro w ⟨rfl, hw⟩
    exact ih w hw

end Ensures

/-- When all steps over a list end with a value, the values follow one another as they do in each
step. -/
theorem foldl_of_execute_foldlM
    {γ : Type} {step : β → γ → Run σ β} (next : β → γ → β) {items : List γ}
    (hstep : ∀ item ∈ items, ∀ b b' w w',
      (step b item).execute s w = (.ok b', w') → b' = next b item)
    {b b' : β} {w w' : World σ} (h : (items.foldlM step b).execute s w = (.ok b', w')) :
    b' = items.foldl next b := by
  induction items generalizing b w with
  | nil =>
    cases h
    rfl
  | cons item rest ih =>
    rw [List.foldlM_cons] at h
    obtain ⟨c, w₁, hfirst, hrest⟩ := exists_of_execute_bind h
    rw [List.foldl_cons, ← hstep item List.mem_cons_self b c w w₁ hfirst]
    exact ih (fun item hitem => hstep item (List.mem_cons_of_mem _ hitem)) hrest

/-- A call that succeeds is not made again. -/
theorem retry_of_ok
    {policy : RetryPolicy} {chance : Float} {call : StateM (World σ) (Except Failure α)}
    {pause : Float → StateM (World σ) Unit} {w w' : World σ} {a : α}
    (h : call w = (.ok a, w')) :
    retry policy chance call pause w = (.ok a, w') := by
  unfold retry retryFrom
  simp only [Bind.bind, StateT.bind, h]
  rfl

/-- A call that fails for good is not made again. -/
theorem retry_of_error
    {policy : RetryPolicy} {chance : Float} {call : StateM (World σ) (Except Failure α)}
    {pause : Float → StateM (World σ) Unit} {w w' : World σ} {failure : Failure}
    (h : call w = (.error failure, w')) (hfailure : failure.isTransient = false) :
    retry policy chance call pause w = (.error (.service failure), w') := by
  unfold retry retryFrom
  simp only [Bind.bind, StateT.bind, h, hfailure]
  rfl

/-- A batch that the service carries out is sent once. -/
theorem execute_update_of_ok
    {requests : List Request} {w : World σ} {response : Response} {state : σ}
    (hne : requests ≠ [])
    (h : s.service.update requests w.state = (.ok response, state)) :
    (Run.update requests).execute s w = (.ok response,
      { state, log := w.log ++ [.update requests], batches := w.batches + 1 }) := by
  obtain ⟨r, rest, rfl⟩ := List.exists_cons_of_ne_nil hne
  have hcall : call (.update (r :: rest)) (s.service.update (r :: rest))
      { w with batches := w.batches + 1 } = (.ok response,
        { w with state, log := w.log ++ [.update (r :: rest)], batches := w.batches + 1 }) := by
    simp only [call, note, h]
  exact retry_of_ok hcall

theorem execute_update
    {requests : List Request} {w : World σ} {response : Response} {state : σ}
    (hne : requests ≠ [])
    (h : s.service.update requests w.state = (.ok response, state)) :
    ∃ w', (Run.update requests).execute s w = (.ok response, w') ∧ w'.state = state :=
  ⟨_, execute_update_of_ok hne h, rfl⟩

/-- A batch that the service refuses for good is sent once too. -/
theorem execute_update_of_error
    {requests : List Request} {w : World σ} {failure : Failure} {state : σ}
    (hne : requests ≠ [])
    (h : s.service.update requests w.state = (.error failure, state))
    (hfailure : failure.isTransient = false) :
    ∃ w', (Run.update requests).execute s w = (.error (.service failure), w') ∧
      w'.state = state := by
  obtain ⟨r, rest, rfl⟩ := List.exists_cons_of_ne_nil hne
  refine ⟨{ w with state, log := w.log ++ [.update (r :: rest)], batches := w.batches + 1 }, ?_,
    rfl⟩
  have hcall : call (.update (r :: rest)) (s.service.update (r :: rest))
      { w with batches := w.batches + 1 } = (.error failure,
        { w with state, log := w.log ++ [.update (r :: rest)], batches := w.batches + 1 }) := by
    simp only [call, note, h]
  exact retry_of_error hcall hfailure

/-- What the service does with a batch, a session does with it; an empty batch is not sent. -/
theorem Ensures.of_update
    {requests : List Request} {P Q : σ → Prop}
    (hnil : requests = [] → ∀ state, P state → Q state)
    (h : ∀ state, P state → ∃ response state',
      s.service.update requests state = (.ok response, state') ∧ Q state') :
    Ensures s (fun w => P w.state) (Run.update requests) fun _ w => Q w.state := by
  intro w hw
  by_cases hne : requests = []
  · subst hne
    exact ⟨{}, w, rfl, hnil rfl w.state hw⟩
  · obtain ⟨response, state', hupdate, hend⟩ := h w.state hw
    obtain ⟨w', hrun, rfl⟩ := execute_update hne hupdate
    exact ⟨response, w', hrun, hend⟩

/-- A document that the service hands out is fetched once. -/
theorem execute_fetch
    {w : World σ} {doc : Document} {state : σ}
    (h : s.service.fetch w.state = (.ok doc, state)) :
    Run.fetch.execute s w = (.ok doc, { w with state, log := w.log ++ [.fetch] }) := by
  have hcall : call .fetch s.service.fetch w =
      (.ok doc, { w with state, log := w.log ++ [.fetch] }) := by
    simp only [call, note, h]
  exact retry_of_ok hcall

theorem execute_compile [CharNames]
    {e : Expression} {p : Pattern} (h : e.compile = .ok p) (s : Session σ) (w : World σ) :
    (Run.compile e).execute s w = (.ok p, w) := by
  rw [Run.compile, h]
  rfl

theorem execute_ofLimited
    {x : Except Limit α} {a : α} (h : x = .ok a) (s : Session σ) (w : World σ) :
    (ofLimited x).execute s w = (.ok a, w) := by
  rw [h]
  rfl

theorem execute_ofTable
    {x : Except TableError α} {a : α} (h : x = .ok a) (s : Session σ) (w : World σ) :
    (ofTable x).execute s w = (.ok a, w) := by
  rw [h]
  rfl

end Run

end Redline
