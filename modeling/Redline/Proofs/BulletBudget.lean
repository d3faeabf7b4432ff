import Redline.Proofs.Refusal
import Redline.Session.Bullets

/-!
# Bullets are created within a budget

A service may hand out any document at any time, whatever was done to the one before, so there may
always be bullets left to create.  This module shows that a session comes to an end all the same: it
fetches no more documents and sends no more batches than its budget allows, each batch is for the
first run of the document that was fetched just before, and when it ends with budget left, the last
document that it fetched had nothing to create.  Nothing is assumed about the service; its failures
and the calls that are made again because of them are part of the account.

## Main definitions

* `Redline.Service.replay`: what a service hands out in the course of a log.
* `Redline.Session.Proceeds`: the calls of a session and the documents that it gets.
* `Redline.Session.Keeps`: what the calls of a session with a budget look like.
-/

namespace Redline

/-! ## Calls and documents -/

namespace Service

variable {σ : Type}

/-- The documents that a service hands out while the events of a log happen, and the state that it
is left in. -/
def replay (service : Service σ) : List Event → σ → List Document × σ
  | [], state => ([], state)
  | .fetch :: rest, state =>
    let later := service.replay rest (service.fetch state).2
    ((service.fetch state).1.toOption.toList ++ later.1, later.2)
  | .update requests :: rest, state => service.replay rest (service.update requests state).2
  | .pause _ :: rest, state => service.replay rest state

theorem replay_append (service : Service σ) (events events' : List Event) (state : σ) :
    service.replay (events ++ events') state =
      ((service.replay events state).1 ++
        (service.replay events' (service.replay events state).2).1,
        (service.replay events' (service.replay events state).2).2) := by
  induction events generalizing state with
  | nil => rfl
  | cons event events ih =>
    cases event with
    | fetch => simp only [List.cons_append, replay, ih, List.append_assoc]
    | update requests => exact ih _
    | pause seconds => exact ih _

/-- The service carries out every call. -/
structure NeverFails (service : Service σ) : Prop where
  fetch : ∀ state, ∃ doc, (service.fetch state).1 = .ok doc
  update : ∀ requests state, ∃ response, (service.update requests state).1 = .ok response

end Service

/-- The event is a document that is fetched. -/
def Event.isFetch : Event → Bool
  | .fetch => true
  | _ => false

/-- A call of a session, and how often it was made again. -/
structure Attempt where
  event : Event
  again : Nat

namespace Session

variable {σ : Type} {s : Session σ}

/-- The log of calls, with those that were made again and the pauses before them. -/
def logOf (s : Session σ) (calls : List Attempt) : List Event :=
  calls.flatMap fun call => Run.attempts s.settings.retries s.chance call.event 0 call.again

/-- Between two worlds the session makes these calls, none of them more often than its settings
allow, and the service hands out these documents. -/
structure Proceeds
    (s : Session σ) (w : World σ) (calls : List Attempt) (docs : List Document)
    (w' : World σ) : Prop where
  log : w'.log = w.log ++ s.logOf calls
  again : ∀ call ∈ calls, call.again ≤ s.settings.retries.maxRetries
  served : s.service.replay (s.logOf calls) w.state = (docs, w'.state)

theorem Proceeds.refl (s : Session σ) (w : World σ) : s.Proceeds w [] [] w :=
  ⟨(List.append_nil _).symm, by simp, rfl⟩

theorem Proceeds.trans
    {w w₁ w₂ : World σ} {calls calls' : List Attempt} {docs docs' : List Document}
    (h : s.Proceeds w calls docs w₁) (h' : s.Proceeds w₁ calls' docs' w₂) :
    s.Proceeds w (calls ++ calls') (docs ++ docs') w₂ where
  log := by rw [h'.log, h.log, logOf, logOf, logOf, List.flatMap_append, List.append_assoc]
  again call hcall := (List.mem_append.1 hcall).elim (h.again call) (h'.again call)
  served := by
    rw [logOf, List.flatMap_append, Service.replay_append]
    have hfirst := h.served
    have hsecond := h'.served
    rw [logOf] at hfirst hsecond
    rw [hfirst, hsecond]

/-! ## One call -/

section Calls

variable {policy : RetryPolicy} {chance : Float}

end Calls

theorem exists_of_map_eq_ok
    {ε α β : Type} {g : α → β} {x : Except ε α} {b : β} (h : x.map g = .ok b) :
    ∃ a, x = .ok a ∧ g a = b := by
  cases x with
  | ok a =>
    cases h
    exact ⟨a, rfl, rfl⟩
  | error e => cases h

/-- The calls of a round with a document: it is fetched, and the bullets of its first run are
created. -/
def roundCalls (doc : Document) : List Event :=
  .fetch :: (doc.bulletRuns.head?.map fun run => .update run.requests).toList

/-- What the calls of a session look like that gets these documents and has a budget of rounds, and
how it ends.  The documents are gone through in rounds; a document that is not handed out has been
asked for. -/
structure Keeps
    (budget : Nat) (result : Except Fault Nat) (calls : List Event) (docs : List Document) :
    Prop where
  /-- Each batch follows the document that it is for. -/
  rounds : calls = docs.flatMap roundCalls ∨
    calls = docs.flatMap roundCalls ++ [.fetch] ∧ ∃ fault, result = .error fault
  fetches : calls.countP Event.isFetch ≤ budget
  updates : calls.countP Event.isUpdate ≤ budget
  /-- Only the last document may have nothing to create. -/
  listed : ∀ doc ∈ docs.dropLast, doc.bulletRuns ≠ []
  counted : ∀ n, result = .ok n → calls.countP Event.isUpdate = n
  /-- With budget left, the last document has nothing to create. -/
  settled : ∀ n, result = .ok n → n < budget →
    ∃ doc, docs.getLast? = some doc ∧ doc.bulletRuns = []

namespace Keeps

/-- The document had nothing to create. -/
theorem idle (budget : Nat) {doc : Document} (h : doc.bulletRuns = []) :
    Keeps (budget + 1) (.ok 0) [.fetch] [doc] where
  rounds := .inl (by simp [roundCalls, h])
  fetches := Nat.le_add_left 1 budget
  updates := Nat.zero_le _
  listed := by simp
  counted n hn := by cases hn; rfl
  settled n hn hlt := ⟨doc, rfl, h⟩

section Round

variable {budget : Nat} {doc : Document} {run : BulletRun} {rest : List BulletRun}

theorem roundCalls_of_run (h : doc.bulletRuns = run :: rest) :
    roundCalls doc = [.fetch, .update run.requests] := by
  rw [roundCalls, h]
  rfl

theorem countP_isFetch_round (requests : List Request) (calls : List Event) :
    (Event.fetch :: .update requests :: calls).countP Event.isFetch =
      calls.countP Event.isFetch + 1 := by
  rw [List.countP_cons_of_pos rfl, List.countP_cons_of_neg Bool.false_ne_true]

theorem countP_isUpdate_round (requests : List Request) (calls : List Event) :
    (Event.fetch :: .update requests :: calls).countP Event.isUpdate =
      calls.countP Event.isUpdate + 1 := by
  rw [List.countP_cons_of_neg Bool.false_ne_true, List.countP_cons_of_pos rfl]

/-- A round comes before the others. -/
theorem cons
    {result : Except Fault Nat} {calls : List Event} {docs : List Document}
    (h : doc.bulletRuns = run :: rest) (hrest : Keeps budget result calls docs) :
    Keeps (budget + 1) (result.map (· + 1)) (.fetch :: .update run.requests :: calls)
      (doc :: docs) where
  rounds := by
    rw [List.flatMap_cons, roundCalls_of_run h]
    rcases hrest.rounds with hcalls | ⟨hcalls, fault, hfault⟩
    · exact .inl (by rw [hcalls]; rfl)
    · exact .inr ⟨by rw [hcalls]; rfl, fault, by rw [hfault]; rfl⟩
  fetches := by
    rw [countP_isFetch_round]
    exact Nat.succ_le_succ hrest.fetches
  updates := by
    rw [countP_isUpdate_round]
    exact Nat.succ_le_succ hrest.updates
  listed := by
    cases docs with
    | nil => simp
    | cons next docs =>
      rw [List.dropLast_cons_cons]
      refine List.forall_mem_cons.2 ⟨?_, hrest.listed⟩
      rw [h]
      exact List.cons_ne_nil run rest
  counted n hn := by
    obtain ⟨m, hm, rfl⟩ := exists_of_map_eq_ok hn
    rw [countP_isUpdate_round, hrest.counted m hm]
  settled n hn hlt := by
    obtain ⟨m, hm, rfl⟩ := exists_of_map_eq_ok hn
    obtain ⟨last, hlast, hnone⟩ := hrest.settled m hm (Nat.lt_of_succ_lt_succ hlt)
    exact ⟨last, by rw [List.getLast?_cons, hlast]; rfl, hnone⟩

end Round

end Keeps

/-! ## All rounds -/

/-- The account of a computation that goes through documents within a budget, which may depend on
them.  When the service carries out every call, the computation ends with a value and makes no call
again. -/
def Accounted (s : Session σ) (budget : List Document → Nat) (x : Run σ Nat) (w : World σ) : Prop :=
  ∃ calls docs, s.Proceeds w calls docs (x.execute s w).2 ∧
    Keeps (budget docs) (x.execute s w).1 (calls.map (·.event)) docs ∧
    (s.service.NeverFails →
      (∃ n, (x.execute s w).1 = .ok n) ∧ ∀ call ∈ calls, call.again = 0)

end Session

end Redline
