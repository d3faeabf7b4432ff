import Redline.Proofs.RetryBudget
import Redline.Proofs.Run

/-!
# The log of a run

Everything that a session does to the outside is an event of its log.  This module states that the
events which a run adds to the log are of a permitted kind, whatever the service answers, and how
such statements are put together for runs that are made of smaller ones.  A run that ends with a
fault has a log too, so nothing is assumed about how it ends.
-/

namespace Redline

/-- Only permitted events are added to the log between two worlds. -/
def World.Adds {σ : Type} (permitted : Event → Prop) (w w' : World σ) : Prop :=
  ∃ events, w'.log = w.log ++ events ∧ ∀ event ∈ events, permitted event

namespace World.Adds

variable {σ : Type} {permitted : Event → Prop} {w w' w'' : World σ}

theorem refl (w : World σ) : Adds permitted w w :=
  ⟨[], (List.append_nil _).symm, by simp⟩

theorem one {event : Event} (h : permitted event) (hlog : w'.log = w.log ++ [event]) :
    Adds permitted w w' := by
  refine ⟨[event], hlog, ?_⟩
  intro other hother
  rwa [List.mem_singleton.1 hother]

theorem trans (h : Adds permitted w w') (h' : Adds permitted w' w'') :
    Adds permitted w w'' := by
  obtain ⟨events, hlog, hevents⟩ := h
  obtain ⟨more, hmore, hpermitted⟩ := h'
  refine ⟨events ++ more, ?_, ?_⟩
  · rw [hmore, hlog, List.append_assoc]
  · intro event hevent
    rcases List.mem_append.1 hevent with hevent | hevent
    · exact hevents event hevent
    · exact hpermitted event hevent

theorem mono
    {allowed : Event → Prop} (h : Adds permitted w w')
    (himp : ∀ event, permitted event → allowed event) : Adds allowed w w' := by
  obtain ⟨events, hlog, hevents⟩ := h
  exact ⟨events, hlog, fun event hevent => himp event (hevents event hevent)⟩

end World.Adds

namespace Run

open World (Adds)

variable {σ α β γ : Type} {s : Session σ} {permitted : Event → Prop}

/-- Whatever the service answers, the computation adds only permitted events to the log, and the
value that it ends with, if it ends with one, has a property. -/
def Logs
    (s : Session σ) (permitted : Event → Prop) (x : Run σ α) (result : α → Prop) : Prop :=
  ∀ w, Adds permitted w (x.execute s w).2 ∧ ∀ a, (x.execute s w).1 = .ok a → result a

theorem execute_tryCatch
    (x : Run σ α) (handler : Fault → Run σ α) (s : Session σ) (w : World σ) :
    (tryCatch x handler).execute s w =
      match x.execute s w with
      | (.ok a, w') => (.ok a, w')
      | (.error fault, w') => (handler fault).execute s w' := by
  have hcatch : (tryCatch x handler).execute s w =
      (ExceptT.tryCatch (x s) fun fault => handler fault s) w := rfl
  have hexecute : x.execute s w = x s w := rfl
  rw [hcatch, hexecute, ExceptT.tryCatch]
  simp only [ExceptT.mk, Bind.bind, StateT.bind]
  rcases x s w with ⟨_ | a, w'⟩
  · rfl
  · rfl

/-! ## Calls -/

section Calls

variable {policy : RetryPolicy} {chance : Float} {event : Event} {f : σ → Except Failure α × σ}

/-- A call is written to the log as often as it is made, with the pauses in between. -/
theorem exists_log_retryFrom (left attempt : Nat) (w : World σ) :
    ∃ events, (retryFrom policy chance (call event f) pause left attempt w).2.log =
        w.log ++ event :: events ∧
      ∀ other ∈ events, other = event ∨ ∃ seconds, other = .pause seconds := by
  have hevents : ∀ again, ∀ other ∈ (List.range' attempt again).flatMap fun i : Nat =>
      [.pause (policy.seconds chance i), event],
      other = event ∨ ∃ seconds, other = .pause seconds := by
    intro again other hother
    obtain ⟨i, -, hi⟩ := List.mem_flatMap.1 hother
    rcases List.mem_cons.1 hi with rfl | hi
    · exact .inr ⟨_, rfl⟩
    · exact .inl (List.mem_singleton.1 hi)
  obtain ⟨again, -, -, hrun, -⟩ := exists_again policy chance event f left attempt w
  exact ⟨_, by rw [hrun]; rfl, hevents again⟩

/-- The value that a call ends with is an answer of the service. -/
theorem exists_of_retryFrom_eq_ok
    {left attempt : Nat} {w : World σ} {a : α}
    (h : (retryFrom policy chance (call event f) pause left attempt w).1 = .ok a) :
    ∃ state state', f state = (.ok a, state') := by
  obtain ⟨again, -, -, -, hvalue⟩ := exists_again policy chance event f left attempt w
  rw [h] at hvalue
  cases hanswer : answer f w.state again with
  | ok b =>
    rw [hanswer] at hvalue
    cases hvalue
    exact ⟨stateAfter f again w.state, _, Prod.ext hanswer rfl⟩
  | error failure =>
    rw [hanswer] at hvalue
    cases hvalue

end Calls

theorem exists_log_request
    (event : Event) (f : Service σ → σ → Except Failure α × σ) (s : Session σ) (w : World σ) :
    ∃ events, ((Run.request event f).execute s w).2.log = w.log ++ event :: events ∧
      ∀ other ∈ events, other = event ∨ ∃ seconds, other = .pause seconds :=
  exists_log_retryFrom _ _ w

/-- A batch that is not empty is written to the log. -/
theorem exists_log_update
    {requests : List Request} (hne : requests ≠ []) (s : Session σ) (w : World σ) :
    ∃ events, ((Run.update requests).execute s w).2.log = w.log ++ .update requests :: events := by
  obtain ⟨r, rest, rfl⟩ := List.exists_cons_of_ne_nil hne
  obtain ⟨events, hlog, -⟩ := exists_log_request (.update (r :: rest))
    (fun service => service.update (r :: rest)) s { w with batches := w.batches + 1 }
  exact ⟨events, hlog⟩

namespace Logs

section Steps

variable {x : Run σ α} {result : α → Prop}

theorem pure {a : α} (h : result a) : Logs s permitted (Pure.pure a) result := by
  intro w
  refine ⟨Adds.refl w, ?_⟩
  intro b hb
  cases hb
  exact h

theorem throw (fault : Fault) : Logs s permitted (MonadExcept.throw fault : Run σ α) result := by
  intro w
  refine ⟨Adds.refl w, ?_⟩
  intro a ha
  cases ha

theorem read : Logs s permitted (MonadReader.read : Run σ (Session σ)) (· = s) := by
  intro w
  refine ⟨Adds.refl w, ?_⟩
  intro a ha
  cases ha
  rfl

theorem bind
    {f : α → Run σ β} {result' : β → Prop}
    (hx : Logs s permitted x result) (hf : ∀ a, result a → Logs s permitted (f a) result') :
    Logs s permitted (x >>= f) result' := by
  intro w
  obtain ⟨hlog, hvalue⟩ := hx w
  rw [execute_bind]
  rcases hrun : x.execute s w with ⟨fault | a, w'⟩
  · rw [hrun] at hlog
    refine ⟨hlog, ?_⟩
    intro b hb
    cases hb
  · rw [hrun] at hlog hvalue
    obtain ⟨hmore, hvalue'⟩ := hf a (hvalue a rfl) w'
    exact ⟨hlog.trans hmore, hvalue'⟩

theorem tryCatch
    {handler : Fault → Run σ α} (hx : Logs s permitted x result)
    (hhandler : ∀ fault, Logs s permitted (handler fault) result) :
    Logs s permitted (MonadExcept.tryCatch x handler) result := by
  intro w
  obtain ⟨hlog, hvalue⟩ := hx w
  rw [execute_tryCatch]
  rcases hrun : x.execute s w with ⟨fault | a, w'⟩
  · rw [hrun] at hlog
    obtain ⟨hmore, hvalue'⟩ := hhandler fault w'
    exact ⟨hlog.trans hmore, hvalue'⟩
  · rw [hrun] at hlog hvalue
    exact ⟨hlog, hvalue⟩

theorem discard (hx : Logs s permitted x result) :
    Logs s permitted (Functor.discard x) fun _ => True := by
  have heq : Functor.discard x = x >>= fun _ => Pure.pure () := rfl
  rw [heq]
  exact hx.bind fun _ _ => Logs.pure trivial

theorem within (origin : Origin) (hx : Logs s permitted x result) :
    Logs s permitted (Run.within origin x) result :=
  hx.tryCatch fun _ => Logs.throw _

theorem mono
    {allowed : Event → Prop} (hx : Logs s permitted x result)
    (himp : ∀ event, permitted event → allowed event) : Logs s allowed x result := by
  intro w
  exact ⟨(hx w).1.mono himp, (hx w).2⟩

theorem adds (hx : Logs s permitted x fun _ => True) (w : World σ) :
    Adds permitted w (x.execute s w).2 :=
  (hx w).1

/-- What is known of the value of a run can be used in place of what its events tell. -/
theorem of_execute
    {result' : α → Prop} (hx : Logs s permitted x result)
    (h : ∀ w a w', x.execute s w = (.ok a, w') → result' a) : Logs s permitted x result' := by
  intro w
  refine ⟨(hx w).1, ?_⟩
  intro a ha
  exact h w a _ (Prod.ext ha rfl)

end Steps

/-! ## Values that are at hand -/

theorem ofLimited
    {x : Except Limit α} {result : α → Prop} (h : ∀ a, x = .ok a → result a) :
    Logs s permitted (Run.ofLimited x) result := by
  cases x with
  | error limit => exact Logs.throw _
  | ok a => exact Logs.pure (h a rfl)

theorem ofTable
    {x : Except TableError α} {result : α → Prop} (h : ∀ a, x = .ok a → result a) :
    Logs s permitted (Run.ofTable x) result := by
  cases x with
  | error e => exact Logs.throw _
  | ok a => exact Logs.pure (h a rfl)

theorem compile [CharNames] (e : Expression) :
    Logs s permitted (Run.compile e) fun _ => True := by
  unfold Run.compile
  split
  · exact Logs.pure trivial
  · exact Logs.throw _
  · exact Logs.throw _

/-! ## Lists of computations -/

theorem mapM
    {f : γ → Run σ α} {items : List γ} {result : α → Prop}
    (h : ∀ item ∈ items, Logs s permitted (f item) result) :
    Logs s permitted (items.mapM f) fun values => ∀ a ∈ values, result a := by
  induction items with
  | nil => exact Logs.pure (by simp)
  | cons item rest ih =>
    rw [List.mapM_cons]
    have hfirst := h item List.mem_cons_self
    have hrest := ih fun item hitem => h item (List.mem_cons_of_mem _ hitem)
    refine hfirst.bind fun a ha => hrest.bind fun values hvalues => Logs.pure ?_
    intro b hb
    rcases List.mem_cons.1 hb with rfl | hb
    · exact ha
    · exact hvalues b hb

theorem foldlM
    {step : β → γ → Run σ β} {items : List γ} {invariant : β → Prop} {b : β} (hb : invariant b)
    (h : ∀ item ∈ items, ∀ b, invariant b → Logs s permitted (step b item) invariant) :
    Logs s permitted (items.foldlM step b) invariant := by
  induction items generalizing b with
  | nil => exact Logs.pure hb
  | cons item rest ih =>
    rw [List.foldlM_cons]
    refine (h item List.mem_cons_self b hb).bind fun b' hb' => ?_
    exact ih hb' fun item hitem => h item (List.mem_cons_of_mem _ hitem)

/-- A loop over a list that goes through all of it. -/
theorem forIn
    {f : γ → Run σ PUnit} {items : List γ}
    (h : ∀ item ∈ items, Logs s permitted (f item) fun _ => True) :
    Logs s permitted
      (ForIn.forIn items PUnit.unit fun item _ => do
        f item
        Pure.pure (ForInStep.yield PUnit.unit))
      fun _ => True := by
  induction items with
  | nil => exact Logs.pure trivial
  | cons item rest ih =>
    rw [List.forIn_cons]
    have hfirst : Logs s permitted (do
        f item
        Pure.pure (ForInStep.yield PUnit.unit)) fun next => next = .yield PUnit.unit :=
      (h item List.mem_cons_self).bind fun _ _ => Logs.pure rfl
    refine hfirst.bind fun next hnext => ?_
    subst hnext
    exact ih fun item hitem => h item (List.mem_cons_of_mem _ hitem)

/-! ## The outside -/

theorem wait (hpause : ∀ seconds, permitted (.pause seconds)) (seconds : Float) :
    Logs s permitted (Run.wait seconds) fun _ => True := by
  intro w
  exact ⟨Adds.one (hpause seconds) rfl, fun _ _ => trivial⟩

theorem request
    {event : Event} {f : Service σ → σ → Except Failure α × σ} {result : α → Prop}
    (hevent : permitted event) (hpause : ∀ seconds, permitted (.pause seconds))
    (hf : ∀ state a state', f s.service state = (.ok a, state') → result a) :
    Logs s permitted (Run.request event f) result := by
  intro w
  constructor
  · obtain ⟨events, hlog, hevents⟩ := exists_log_request event f s w
    refine ⟨event :: events, hlog, ?_⟩
    intro other hother
    rcases List.mem_cons.1 hother with rfl | hother
    · exact hevent
    · rcases hevents other hother with rfl | ⟨seconds, rfl⟩
      · exact hevent
      · exact hpause seconds
  · intro a ha
    obtain ⟨state, state', hcall⟩ := exists_of_retryFrom_eq_ok ha
    exact hf state a state' hcall

theorem fetch
    {result : Document → Prop} (hevent : permitted .fetch)
    (hpause : ∀ seconds, permitted (.pause seconds))
    (hfetch : ∀ state doc state', s.service.fetch state = (.ok doc, state') → result doc) :
    Logs s permitted Run.fetch result :=
  Logs.request hevent hpause hfetch

/-- An empty batch is not sent, so it need not be permitted. -/
theorem update
    {requests : List Request} (hevent : requests ≠ [] → permitted (.update requests))
    (hpause : ∀ seconds, permitted (.pause seconds)) :
    Logs s permitted (Run.update requests) fun _ => True := by
  unfold Run.update
  by_cases hempty : requests = []
  · subst hempty
    exact Logs.pure trivial
  · have hcount : Logs s permitted
        (modify fun w : World σ => { w with batches := w.batches + 1 }) fun _ => True :=
      fun w => ⟨⟨[], (List.append_nil _).symm, by simp⟩, fun _ _ => trivial⟩
    simp only [List.isEmpty_iff, hempty, if_false]
    exact hcount.bind fun _ _ =>
      Logs.request (hevent hempty) hpause fun _ _ _ _ => trivial

end Logs

end Run

end Redline
