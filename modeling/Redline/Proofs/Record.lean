import Redline.Proofs.Log

/-!
# The record of a service

The log of a session has the calls that it makes, and not how they end.  A service that keeps a
record of its calls has both.  This module says what a computation adds to such a record, one way
when it ends with a value and another way when it ends with a fault, and how this is put together
for computations that are made of smaller ones.  Every service can be made to keep a record, and is
otherwise the same.

## Main definitions

* `Redline.Service.Records`: the service keeps a record.
* `Redline.Service.recording`: the same service, with a record.
* `Redline.Run.Traces`: what a computation adds to the record.
-/

namespace Redline

/-- A call of a service, and for a batch whether it was carried out. -/
inductive Call where
  | fetch
  | update (requests : List Request) (carriedOut : Bool)

namespace Service

variable {σ : Type}

/-- The service writes every call to the end of a record in its state. -/
structure Records (service : Service σ) (record : σ → List Call) : Prop where
  fetch : ∀ state, record (service.fetch state).2 = record state ++ [.fetch]
  update : ∀ requests state, record (service.update requests state).2 =
    record state ++ [.update requests (service.update requests state).1.isOk]

/-- The service with a record in its state. -/
def recording (service : Service σ) : Service (σ × List Call) where
  fetch state :=
    let result := service.fetch state.1
    (result.1, result.2, state.2 ++ [.fetch])
  update requests state :=
    let result := service.update requests state.1
    (result.1, result.2, state.2 ++ [.update requests result.1.isOk])

theorem records_recording (service : Service σ) : service.recording.Records Prod.snd :=
  ⟨fun _ => rfl, fun _ _ => rfl⟩

end Service

namespace Run

variable {σ α β γ : Type} {s : Session σ} {record : σ → List Call}

/-- Whatever the service answers, the calls that the computation adds to the record have one
property when it ends with a value, and another one when it ends with a fault. -/
def Traces (s : Session σ) (record : σ → List Call) (x : Run σ α)
    (done : α → List Call → Prop) (failed : List Call → Prop) : Prop :=
  ∀ w, ∃ calls, record (x.execute s w).2.state = record w.state ++ calls ∧
    (∀ a, (x.execute s w).1 = .ok a → done a calls) ∧
    ∀ fault, (x.execute s w).1 = .error fault → failed calls

/-- Calls that fail for passing reasons are recorded as failures. -/
theorem record_stateAfter
    {f : σ → Except Failure α × σ} {call : Bool → Call}
    (hf : ∀ state, record (f state).2 = record state ++ [call (f state).1.isOk])
    {state : σ} {n : Nat} (h : ∀ i < n, isPassing (answer f state i) = true) :
    record (stateAfter f n state) = record state ++ List.replicate n (call false) := by
  induction n with
  | zero => simp [stateAfter]
  | succ n ih =>
    obtain ⟨failure, hanswer, -⟩ := exists_of_isPassing (h n (Nat.lt_succ_self n))
    have hok : (f (stateAfter f n state)).1.isOk = false := by
      rw [show (f (stateAfter f n state)).1 = .error failure from hanswer]
      rfl
    rw [stateAfter_succ, hf, ih fun i hi => h i (Nat.lt_succ_of_lt hi), hok,
      List.replicate_succ', List.append_assoc]

theorem isOk_eq_of_toOption_eq {ε δ : Type} {x : Except ε α} {y : Except δ α}
    (h : x.toOption = y.toOption) : x.isOk = y.isOk := by
  cases x <;> cases y <;> first | rfl | cases h

/-- A call that is made again and again fails each time but the last one. -/
theorem exists_record_retryFrom
    {policy : RetryPolicy} {chance : Float} {event : Event} {f : σ → Except Failure α × σ}
    {call : Bool → Call}
    (hf : ∀ state, record (f state).2 = record state ++ [call (f state).1.isOk])
    (left attempt : Nat) (w : World σ) :
    ∃ n, record (retryFrom policy chance (Run.call event f) pause left attempt w).2.state =
      record w.state ++ (List.replicate n (call false) ++
        [call (retryFrom policy chance (Run.call event f) pause left attempt w).1.isOk]) := by
  have hlast : ∀ {n : Nat}, (∀ i < n, isPassing (answer f w.state i) = true) →
      record (stateAfter f (n + 1) w.state) = record w.state ++
        (List.replicate n (call false) ++ [call (answer f w.state n).isOk]) := by
    intro n hn
    rw [stateAfter_succ, hf, record_stateAfter hf hn, List.append_assoc]
    rfl
  obtain ⟨again, -, hpassing, hrun, hvalue⟩ := exists_again policy chance event f left attempt w
  refine ⟨again, ?_⟩
  rw [hrun, isOk_eq_of_toOption_eq hvalue]
  exact hlast hpassing

namespace Traces

theorem mono
    {x : Run σ α} {done done' : α → List Call → Prop} {failed failed' : List Call → Prop}
    (hx : Traces s record x done failed) (hdone : ∀ a calls, done a calls → done' a calls)
    (hfailed : ∀ calls, failed calls → failed' calls) :
    Traces s record x done' failed' := by
  intro w
  obtain ⟨calls, hcalls, hok, herror⟩ := hx w
  exact ⟨calls, hcalls, fun a ha => hdone a calls (hok a ha),
    fun fault hfault => hfailed calls (herror fault hfault)⟩

theorem pure {done : α → List Call → Prop} {failed : List Call → Prop} {a : α} (h : done a []) :
    Traces s record (Pure.pure a) done failed := by
  intro w
  refine ⟨[], (List.append_nil _).symm, ?_, ?_⟩
  · intro b hb
    cases hb
    exact h
  · intro fault hfault
    cases hfault

theorem throw {done : α → List Call → Prop} {failed : List Call → Prop} (h : failed [])
    (fault : Fault) : Traces s record (MonadExcept.throw fault) done failed := by
  intro w
  refine ⟨[], (List.append_nil _).symm, ?_, fun _ _ => h⟩
  intro a ha
  cases ha

/-- A computation that leaves the service alone adds nothing to the record. -/
theorem of_state_eq {x : Run σ α} (h : ∀ w, (x.execute s w).2.state = w.state) :
    Traces s record x (fun _ calls => calls = []) fun calls => calls = [] := by
  intro w
  refine ⟨[], ?_, fun _ _ => rfl, fun _ _ => rfl⟩
  rw [h, List.append_nil]

/-- The calls of the second part follow those of the first one. -/
theorem bind
    {x : Run σ α} {f : α → Run σ β} {done : α → List Call → Prop} {failed : List Call → Prop}
    {done' : β → List Call → Prop} {failed' : List Call → Prop}
    (hx : Traces s record x done failed) (hfailed : ∀ calls, failed calls → failed' calls)
    (hf : ∀ a calls, done a calls → Traces s record (f a)
      (fun b more => done' b (calls ++ more)) fun more => failed' (calls ++ more)) :
    Traces s record (x >>= f) done' failed' := by
  intro w
  obtain ⟨calls, hcalls, hok, herror⟩ := hx w
  rw [execute_bind]
  rcases hrun : x.execute s w with ⟨fault | a, w'⟩
  · rw [hrun] at hcalls herror
    refine ⟨calls, hcalls, ?_, fun _ _ => hfailed calls (herror fault rfl)⟩
    intro b hb
    cases hb
  · rw [hrun] at hcalls hok
    obtain ⟨more, hmore, hok', herror'⟩ := hf a calls (hok a rfl) w'
    refine ⟨calls ++ more, ?_, hok', herror'⟩
    rw [hmore, hcalls, List.append_assoc]

theorem discard
    {x : Run σ α} {done failed : List Call → Prop} (hx : Traces s record x (fun _ => done) failed) :
    Traces s record (Functor.discard x) (fun _ => done) failed := by
  have heq : Functor.discard x = x >>= fun _ => Pure.pure () := rfl
  rw [heq]
  refine hx.bind (fun _ h => h) ?_
  intro _ calls hcalls
  exact pure (by rwa [List.append_nil])

/-- The calls of a handler follow those that ended with the fault. -/
theorem tryCatch
    {x : Run σ α} {handler : Fault → Run σ α} {done : α → List Call → Prop}
    {failed failed' : List Call → Prop} (hx : Traces s record x done failed)
    (hhandler : ∀ fault calls, failed calls → Traces s record (handler fault)
      (fun a more => done a (calls ++ more)) fun more => failed' (calls ++ more)) :
    Traces s record (MonadExcept.tryCatch x handler) done failed' := by
  intro w
  obtain ⟨calls, hcalls, hok, herror⟩ := hx w
  rw [execute_tryCatch]
  rcases hrun : x.execute s w with ⟨fault | a, w'⟩
  · rw [hrun] at hcalls herror
    obtain ⟨more, hmore, hok', herror'⟩ := hhandler fault calls (herror fault rfl) w'
    refine ⟨calls ++ more, ?_, hok', herror'⟩
    rw [hmore, hcalls, List.append_assoc]
  · rw [hrun] at hcalls hok
    refine ⟨calls, hcalls, hok, ?_⟩
    intro fault hfault
    cases hfault

theorem within
    {x : Run σ α} {done : α → List Call → Prop} {failed : List Call → Prop}
    (hx : Traces s record x done failed) (origin : Origin) :
    Traces s record (Run.within origin x) done failed := by
  refine hx.tryCatch fun fault calls hcalls => throw ?_ _
  rwa [List.append_nil]

theorem request
    {event : Event} {f : Service σ → σ → Except Failure α × σ} (call : Bool → Call)
    (hf : ∀ state, record (f s.service state).2 =
      record state ++ [call (f s.service state).1.isOk]) :
    Traces s record (Run.request event f)
      (fun _ calls => ∃ n, calls = List.replicate n (call false) ++ [call true])
      fun calls => ∃ n, calls = List.replicate n (call false) ++ [call false] := by
  intro w
  have hcalls : ∃ n, record ((Run.request event f).execute s w).2.state =
      record w.state ++ (List.replicate n (call false) ++
        [call ((Run.request event f).execute s w).1.isOk]) :=
    exists_record_retryFrom hf _ _ w
  obtain ⟨n, hn⟩ := hcalls
  refine ⟨_, hn, ?_, ?_⟩
  · intro a ha
    rw [ha]
    exact ⟨n, rfl⟩
  · intro fault hfault
    rw [hfault]
    exact ⟨n, rfl⟩

theorem fetch (hs : s.service.Records record) :
    Traces s record Run.fetch (fun _ calls => ∃ n, calls = List.replicate (n + 1) .fetch)
      fun calls => ∃ n, calls = List.replicate (n + 1) .fetch := by
  have hcalls : ∀ n, List.replicate n Call.fetch ++ [.fetch] = List.replicate (n + 1) .fetch :=
    fun n => List.replicate_succ'.symm
  have htraces : Traces s record Run.fetch
      (fun _ calls => ∃ n, calls = List.replicate n .fetch ++ [.fetch])
      fun calls => ∃ n, calls = List.replicate n .fetch ++ [.fetch] :=
    request (fun _ => .fetch) hs.fetch
  refine htraces.mono ?_ ?_
  · rintro _ _ ⟨n, rfl⟩
    exact ⟨n, hcalls n⟩
  · rintro _ ⟨n, rfl⟩
    exact ⟨n, hcalls n⟩

/-- A batch that is not empty is carried out once, if at all, and was refused before that. -/
theorem update (hs : s.service.Records record) {requests : List Request} (hne : requests ≠ []) :
    Traces s record (Run.update requests)
      (fun _ calls => ∃ n, calls =
        List.replicate n (.update requests false) ++ [.update requests true])
      fun calls => ∃ n, calls =
        List.replicate n (.update requests false) ++ [.update requests false] := by
  have hcount : Traces s record (modify fun w : World σ => { w with batches := w.batches + 1 })
      (fun _ calls => calls = []) fun _ => False := by
    intro w
    refine ⟨[], (List.append_nil _).symm, fun _ _ => rfl, ?_⟩
    intro fault hfault
    cases hfault
  unfold Run.update
  simp only [List.isEmpty_iff, hne, if_false]
  refine hcount.bind (fun _ h => h.elim) ?_
  rintro _ _ rfl
  exact request (.update requests) (hs.update requests)

end Traces

end Run

end Redline
