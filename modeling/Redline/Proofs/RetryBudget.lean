import Mathlib.Logic.Function.Iterate
import Redline.Session.Basic

/-!
# Calls that are made again

A call that fails for a passing reason is made again until it is settled, by a value or by another
failure, or until the retries that the settings allow are used up.  Whatever a service answers, this
module says how often the call is made, how long the pauses in between are, and what it ends with.
Settings that allow more retries than there are pauses to be computed promise too much: a call that
still fails then ends with a limit that has nothing to do with it.
-/

namespace Redline.Run

variable {σ α : Type}

/-- The call is made again after this answer, if a retry is left. -/
def isPassing : Except Failure α → Bool
  | .ok _ => false
  | .error failure => failure.isTransient

/-- The state of a service after a number of calls. -/
def stateAfter (f : σ → Except Failure α × σ) (calls : Nat) (state : σ) : σ :=
  Nat.iterate (fun state => (f state).2) calls state

theorem stateAfter_succ (f : σ → Except Failure α × σ) (calls : Nat) (state : σ) :
    stateAfter f (calls + 1) state = (f (stateAfter f calls state)).2 :=
  Function.iterate_succ_apply' _ calls state

/-- The answer to a call, counted from zero, when it is made again and again. -/
def answer (f : σ → Except Failure α × σ) (state : σ) (i : Nat) : Except Failure α :=
  (f (stateAfter f i state)).1

/-- The log of a call that is made and then made again a number of times, each time after a pause.
The attempts are counted from the first one. -/
def attempts (policy : RetryPolicy) (chance : Float) (event : Event) (first again : Nat) :
    List Event :=
  event :: (List.range' first again).flatMap fun i : Nat =>
    [.pause (policy.seconds chance i), event]

theorem attempts_succ (policy : RetryPolicy) (chance : Float) (event : Event)
    (first again : Nat) :
    attempts policy chance event first (again + 1) =
      event :: .pause (policy.seconds chance first) ::
        attempts policy chance event (first + 1) again := by
  rw [attempts, List.range'_succ, List.flatMap_cons]
  rfl

/-- The state of a session after a call that is made again a number of times. -/
def afterCalls (policy : RetryPolicy) (chance : Float) (event : Event)
    (f : σ → Except Failure α × σ) (first again : Nat) (w : World σ) : World σ :=
  { w with
    state := stateAfter f (again + 1) w.state
    log := w.log ++ attempts policy chance event first again }

open RetryPolicy (exponentLimit)

section Steps

variable {policy : RetryPolicy} {chance : Float} {event : Event} {f : σ → Except Failure α × σ}
  {left attempt : Nat} {w : World σ}

theorem exists_of_isPassing {answer : Except Failure α} (h : isPassing answer = true) :
    ∃ failure, answer = .error failure ∧ failure.isTransient = true := by
  cases answer with
  | ok a => cases h
  | error failure => exact ⟨failure, rfl, h⟩

/-- The calls of a further attempt come after the first call and its pause. -/
theorem afterCalls_succ (again : Nat) :
    afterCalls policy chance event f (attempt + 1) again
        (note (.pause (policy.seconds chance attempt))
          { note event w with state := (f w.state).2 }) =
      afterCalls policy chance event f attempt (again + 1) w := by
  simp [afterCalls, attempts_succ, note, stateAfter]

/-- A call that is settled is not made again. -/
theorem retryFrom_of_settled (h : isPassing (f w.state).1 = false) :
    retryFrom policy chance (call event f) pause left attempt w =
      ((f w.state).1.mapError .service, afterCalls policy chance event f attempt 0 w) := by
  unfold retryFrom
  simp only [Bind.bind, StateT.bind, call]
  cases hanswer : (f w.state).1 with
  | ok a => rfl
  | error failure =>
    rw [hanswer] at h
    have hfailure : failure.isTransient = false := h
    simp only [hfailure]
    rfl

/-- Without retries a passing failure is final. -/
theorem retryFrom_zero {failure : Failure} (h : (f w.state).1 = .error failure)
    (hfailure : failure.isTransient = true) :
    retryFrom policy chance (call event f) pause 0 attempt w =
      (.error (.exhausted policy.maxRetries failure),
        afterCalls policy chance event f attempt 0 w) := by
  unfold retryFrom
  simp only [Bind.bind, StateT.bind, call, h, hfailure]
  rfl

/-- After a passing failure the call is made again, with one retry less, if there is a pause. -/
theorem retryFrom_succ (h : isPassing (f w.state).1 = true) (hattempt : attempt < exponentLimit) :
    retryFrom policy chance (call event f) pause (left + 1) attempt w =
      retryFrom policy chance (call event f) pause left (attempt + 1)
        (note (.pause (policy.seconds chance attempt))
          { note event w with state := (f w.state).2 }) := by
  obtain ⟨failure, hanswer, hfailure⟩ := exists_of_isPassing h
  have hdelay : policy.delay chance attempt = .ok (policy.seconds chance attempt) := if_pos hattempt
  rw [retryFrom]
  simp only [Bind.bind, StateT.bind, call, hanswer, hfailure, hdelay]
  rfl

/-- Where there is no pause any more, the limit of the pauses ends the call. -/
theorem retryFrom_of_limit
    (h : isPassing (f w.state).1 = true) (hattempt : exponentLimit ≤ attempt) :
    retryFrom policy chance (call event f) pause (left + 1) attempt w =
      (.error (.limit .doubleRange), afterCalls policy chance event f attempt 0 w) := by
  obtain ⟨failure, hanswer, hfailure⟩ := exists_of_isPassing h
  have hdelay : policy.delay chance attempt = .error .doubleRange :=
    if_neg (Nat.not_lt.2 hattempt)
  rw [retryFrom]
  simp only [Bind.bind, StateT.bind, call, hanswer, hfailure, hdelay]
  rfl

end Steps

/-- How a call ends that may be made again so many times, the attempts before it counted: by its
first answer that does not pass, by the last of its answers when all of them pass, or for want of a
pause. -/
inductive Ends (policy : RetryPolicy) (chance : Float) (event : Event)
    (f : σ → Except Failure α × σ) (left attempt : Nat) (w : World σ) :
    Except Fault α × World σ → Prop where
  | settled {again : Nat} (hleft : again ≤ left) (hpauses : again ≤ exponentLimit - attempt)
    (hpassing : ∀ i < again, isPassing (answer f w.state i) = true)
    (hsettled : isPassing (answer f w.state again) = false) :
    Ends policy chance event f left attempt w
      ((answer f w.state again).mapError .service, afterCalls policy chance event f attempt again w)
  | exhausted {failure : Failure} (hpauses : left ≤ exponentLimit - attempt)
    (hpassing : ∀ i ≤ left, isPassing (answer f w.state i) = true)
    (hlast : answer f w.state left = .error failure) :
    Ends policy chance event f left attempt w
      (.error (.exhausted policy.maxRetries failure),
        afterCalls policy chance event f attempt left w)
  | limit (hleft : exponentLimit - attempt < left)
    (hpassing : ∀ i ≤ exponentLimit - attempt, isPassing (answer f w.state i) = true) :
    Ends policy chance event f left attempt w
      (.error (.limit .doubleRange),
        afterCalls policy chance event f attempt (exponentLimit - attempt) w)

section Runs

variable {policy : RetryPolicy} {chance : Float} {event : Event} {f : σ → Except Failure α × σ}
  {left attempt : Nat} {w : World σ}

/-- How the calls end after a first one that passes is how all of them end. -/
theorem Ends.succ {result : Except Fault α × World σ} (hfirst : isPassing (f w.state).1 = true)
    (hattempt : attempt < exponentLimit)
    (h : Ends policy chance event f left (attempt + 1)
      (note (.pause (policy.seconds chance attempt)) { note event w with state := (f w.state).2 })
      result) :
    Ends policy chance event f (left + 1) attempt w result := by
  have hpauses : exponentLimit - attempt = exponentLimit - (attempt + 1) + 1 := by omega
  -- The answers to the calls that follow are the later answers to the calls from here on.
  have hpass : ∀ {k : Nat}, (∀ i < k, isPassing (answer f (f w.state).2 i) = true) →
      ∀ i < k + 1, isPassing (answer f w.state i) = true := by
    intro k hk i hi
    cases i with
    | zero => exact hfirst
    | succ i => exact hk i (Nat.lt_of_succ_lt_succ hi)
  cases h with
  | settled hleft hspare hpassing hsettled =>
    rw [afterCalls_succ]
    exact .settled (Nat.succ_le_succ hleft) (by omega) (hpass hpassing) hsettled
  | exhausted hspare hpassing hlast =>
    rw [afterCalls_succ]
    refine .exhausted (by omega) (fun i hi => ?_) hlast
    exact hpass (fun i hi => hpassing i (Nat.le_of_lt_succ hi)) i (Nat.lt_succ_of_le hi)
  | limit hleft hpassing =>
    rw [afterCalls_succ, ← hpauses]
    refine .limit (by omega) (fun i hi => ?_)
    exact hpass (fun i hi => hpassing i (Nat.le_of_lt_succ hi)) i (by omega)

theorem ends_retryFrom (policy : RetryPolicy) (chance : Float) (event : Event)
    (f : σ → Except Failure α × σ) (left attempt : Nat) (w : World σ) :
    Ends policy chance event f left attempt w
      (retryFrom policy chance (call event f) pause left attempt w) := by
  induction left generalizing attempt w with
  | zero =>
    cases hfirst : isPassing (f w.state).1 with
    | false =>
      rw [retryFrom_of_settled hfirst]
      exact .settled (Nat.le_refl 0) (Nat.zero_le _) (fun i hi => absurd hi (Nat.not_lt_zero i))
        hfirst
    | true =>
      obtain ⟨failure, hanswer, hfailure⟩ := exists_of_isPassing hfirst
      rw [retryFrom_zero hanswer hfailure]
      refine .exhausted (Nat.zero_le _) (fun i hi => ?_) hanswer
      rw [Nat.le_zero.1 hi]
      exact hfirst
  | succ left ih =>
    cases hfirst : isPassing (f w.state).1 with
    | false =>
      rw [retryFrom_of_settled hfirst]
      exact .settled (Nat.zero_le _) (Nat.zero_le _) (fun i hi => absurd hi (Nat.not_lt_zero i))
        hfirst
    | true =>
      rcases Nat.lt_or_ge attempt exponentLimit with hattempt | hattempt
      · rw [retryFrom_succ hfirst hattempt]
        exact (ih (attempt + 1) _).succ hfirst hattempt
      · have hnone : exponentLimit - attempt = 0 := Nat.sub_eq_zero_of_le hattempt
        rw [retryFrom_of_limit hfirst hattempt, ← hnone]
        refine .limit (by omega) (fun i hi => ?_)
        rw [hnone] at hi
        rw [Nat.le_zero.1 hi]
        exact hfirst

/-- A call is made again as long as its answers pass, and ends with the last one. -/
theorem exists_again (policy : RetryPolicy) (chance : Float) (event : Event)
    (f : σ → Except Failure α × σ) (left attempt : Nat) (w : World σ) :
    ∃ again ≤ left, (∀ i < again, isPassing (answer f w.state i) = true) ∧
      (retryFrom policy chance (call event f) pause left attempt w).2 =
        afterCalls policy chance event f attempt again w ∧
      (retryFrom policy chance (call event f) pause left attempt w).1.toOption =
        (answer f w.state again).toOption := by
  have h := ends_retryFrom policy chance event f left attempt w
  generalize retryFrom policy chance (call event f) pause left attempt w = result at h ⊢
  cases h with
  | @settled again hleft _ hpassing _ =>
    refine ⟨again, hleft, hpassing, rfl, ?_⟩
    cases answer f w.state again with
    | ok a => rfl
    | error failure => rfl
  | exhausted _ hpassing hlast =>
    refine ⟨_, Nat.le_refl _, fun i hi => hpassing i (Nat.le_of_lt hi), rfl, ?_⟩
    rw [hlast]
    rfl
  | limit hleft hpassing =>
    refine ⟨_, Nat.le_of_lt hleft, fun i hi => hpassing i (Nat.le_of_lt hi), rfl, ?_⟩
    obtain ⟨failure, hanswer, -⟩ := exists_of_isPassing (hpassing _ (Nat.le_refl _))
    rw [hanswer]
    rfl

end Runs

section Request

variable (event : Event) (f : Service σ → σ → Except Failure α × σ) (s : Session σ) (w : World σ)

theorem ends_request :
    Ends s.settings.retries s.chance event (f s.service) s.settings.retries.maxRetries 0 w
      ((Run.request event f).execute s w) :=
  ends_retryFrom _ _ _ _ _ _ _

/-- Retries keep to their budget.  The first answer that is not a passing failure is what the call
ends with, if it comes within the budget; a call that is made again so many times has been followed
by as many pauses.  Otherwise the call has been made once and again as often as the budget allows,
and ends with its last failure. -/
def KeepsBudget : Prop :=
  (∃ k ≤ s.settings.retries.maxRetries,
      (∀ i < k, isPassing (answer (f s.service) w.state i) = true) ∧
      isPassing (answer (f s.service) w.state k) = false ∧
      (Run.request event f).execute s w =
        ((answer (f s.service) w.state k).mapError .service,
          afterCalls s.settings.retries s.chance event (f s.service) 0 k w)) ∨
    (∀ i ≤ s.settings.retries.maxRetries,
        isPassing (answer (f s.service) w.state i) = true) ∧
      ∃ failure, answer (f s.service) w.state s.settings.retries.maxRetries = .error failure ∧
        (Run.request event f).execute s w =
          (.error (.exhausted s.settings.retries.maxRetries failure),
            afterCalls s.settings.retries s.chance event (f s.service) 0
              s.settings.retries.maxRetries w)

end Request

section Budget

variable {event : Event} {f : Service σ → σ → Except Failure α × σ} {s : Session σ} {w : World σ}

/-- Calls that all pass, more of them than there are pauses, end with the limit of the pauses. -/
theorem execute_request_of_limit (hmax : exponentLimit < s.settings.retries.maxRetries)
    (hpassing : ∀ i ≤ exponentLimit, isPassing (answer (f s.service) w.state i) = true) :
    (Run.request event f).execute s w = (.error (.limit .doubleRange),
      afterCalls s.settings.retries s.chance event (f s.service) 0 exponentLimit w) := by
  have h := ends_request event f s w
  generalize (Run.request event f).execute s w = result at h ⊢
  cases h with
  | settled _ hpauses _ hsettled =>
    rw [hpassing _ hpauses] at hsettled
    cases hsettled
  | exhausted hpauses => exact absurd hpauses (Nat.not_le.2 hmax)
  | limit => rfl

/-- A call that keeps to its budget does not end with a limit. -/
theorem KeepsBudget.ne_limit (h : KeepsBudget event f s w) (l : Limit) :
    ((Run.request event f).execute s w).1 ≠ .error (.limit l) := by
  rcases h with ⟨k, -, -, -, hrun⟩ | ⟨-, failure, -, hrun⟩
  · rw [hrun]
    cases answer (f s.service) w.state k with
    | ok a =>
      intro h
      cases h
    | error failure =>
      intro h
      cases h
  · rw [hrun]
    intro h
    cases h

theorem keepsBudget_of_pauses (h : s.settings.retries.maxRetries ≤ exponentLimit ∨
    ∃ i ≤ exponentLimit, isPassing (answer (f s.service) w.state i) = false) :
    KeepsBudget event f s w := by
  have hends := ends_request event f s w
  unfold KeepsBudget
  generalize (Run.request event f).execute s w = result at hends ⊢
  cases hends with
  | @settled again hleft _ hpassing hsettled =>
    exact .inl ⟨again, hleft, hpassing, hsettled, rfl⟩
  | exhausted _ hpassing hlast => exact .inr ⟨hpassing, _, hlast, rfl⟩
  | limit hleft hpassing =>
    rcases h with hmax | ⟨i, hi, hsettled⟩
    · exact absurd hmax (Nat.not_le.2 hleft)
    · rw [hpassing i hi] at hsettled
      cases hsettled

/-- Retries keep to their budget, against any service, exactly when the budget does not go beyond
the pauses that can be computed or one of the answers up to there settles the call.  Otherwise the
call is made as often as there are pauses and once more, and then ends with the limit that the next
pause has met. -/
theorem request_keeps_budget_iff (s : Session σ) (event : Event)
    (f : Service σ → σ → Except Failure α × σ) (w : World σ) :
    (KeepsBudget event f s w ↔ s.settings.retries.maxRetries ≤ exponentLimit ∨
        ∃ i ≤ exponentLimit, isPassing (answer (f s.service) w.state i) = false) ∧
      (¬ KeepsBudget event f s w → (Run.request event f).execute s w =
        (.error (.limit .doubleRange),
          afterCalls s.settings.retries s.chance event (f s.service) 0 exponentLimit w)) := by
  have hlimit : ¬ (s.settings.retries.maxRetries ≤ exponentLimit ∨
      ∃ i ≤ exponentLimit, isPassing (answer (f s.service) w.state i) = false) →
      (Run.request event f).execute s w = (.error (.limit .doubleRange),
        afterCalls s.settings.retries s.chance event (f s.service) 0 exponentLimit w) := by
    intro h
    rw [not_or] at h
    refine execute_request_of_limit (Nat.not_le.1 h.1) fun i hi => ?_
    exact Bool.of_not_eq_false fun hsettled => h.2 ⟨i, hi, hsettled⟩
  refine ⟨⟨fun hkeeps => ?_, keepsBudget_of_pauses⟩, fun hbreaks => ?_⟩
  · by_contra h
    exact hkeeps.ne_limit _ (congrArg Prod.fst (hlimit h))
  · exact hlimit (mt keepsBudget_of_pauses hbreaks)

/-- A service that is always busy. -/
def busy : Service Unit where
  fetch state := (.error (.http (some 429) []), state)
  update _ state := (.error (.http (some 429) []), state)

/-- A session that may make a call again once more than there are pauses. -/
def patient : Session Unit :=
  ⟨busy, { retries := { maxRetries := exponentLimit + 1 } }, 0⟩

theorem request_breaks_budget_patient :
    ¬ KeepsBudget .fetch (·.fetch) patient ⟨(), [], 0⟩ ∧
      (Run.fetch.execute patient ⟨(), [], 0⟩).1 = .error (.limit .doubleRange) ∧
      (Run.fetch.execute patient ⟨(), [], 0⟩).2.log =
        attempts patient.settings.retries 0 .fetch 0 exponentLimit := by
  have hrun := @execute_request_of_limit _ _ .fetch (·.fetch) patient ⟨(), [], 0⟩
    (Nat.lt_succ_self _) fun i _ => rfl
  exact ⟨fun hkeeps => hkeeps.ne_limit _ (congrArg Prod.fst hrun), congrArg Prod.fst hrun,
    congrArg (·.2.log) hrun⟩

end Budget

end Redline.Run
