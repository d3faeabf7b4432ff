import Redline.Proofs.Falling
import Redline.Proofs.Record

/-!
# Text that is cleared for images

An image is put in the place of text by two calls: the text is deleted, and then the image is
inserted where it stood.  When all calls for the image are refused the text is lost.  This module
reads off the record of a service what became of each text that was deleted by itself, and states
that a computation answers for all of them: none is left without a call for its image, none is lost
when the computation ends with a value, and one at most when it ends with a fault.

## Main definitions

* `Redline.Fate`, `Redline.Call.fates`: what became of each text that was deleted by itself.
* `Redline.Call.Accounted`: calls that leave no text without an answer.
* `Redline.Run.Accounts`: a computation that leaves none.
-/

namespace Redline

/-! ## What became of deleted text -/

/-- The text that a request deletes. -/
def Request.deletedSpan? : Request → Option Span
  | .deleteRange span => if span.start < span.stop then some span else none
  | _ => none

/-- What became of text that was deleted by itself: an image was put in its place, or all calls for
the image were refused, or there was no call for an image. -/
inductive Fate where
  | replaced
  | lost
  | bare
deriving Repr, DecidableEq

theorem Fate.length_eq_of_answered {fates : List Fate} (h : .bare ∉ fates) :
    fates.length = fates.count .replaced + fates.count .lost := by
  induction fates with
  | nil => rfl
  | cons fate rest ih =>
    rw [List.mem_cons, not_or] at h
    have hrest := ih h.2
    cases fate with
    | replaced =>
      rw [List.length_cons, List.count_cons_self, List.count_cons_of_ne (by decide), hrest]
      omega
    | lost =>
      rw [List.length_cons, List.count_cons_of_ne (by decide), List.count_cons_self, hrest]
      omega
    | bare => exact absurd rfl h.1

namespace Call

/-- The texts that a call has deleted. -/
def deleted : Call → List Span
  | .update requests true => requests.filterMap Request.deletedSpan?
  | _ => []

/-- The place of the text that a call has deleted by itself. -/
def cleared? : Call → Option Int
  | .update [r] true => r.deletedSpan?.map (·.start)
  | _ => none

/-- What becomes of text that was deleted at a place, by the calls that follow. -/
def fate (index : Int) : List Call → Fate
  | .update [.insertImage i _ _ _] carriedOut :: rest =>
    if i = index then
      if carriedOut then .replaced
      else if fate index rest = .replaced then .replaced else .lost
    else .bare
  | _ => .bare

/-- What became of the texts that were deleted by themselves, in order. -/
def fates : List Call → List Fate
  | [] => []
  | call :: rest =>
    match call.cleared? with
    | some index => fate index rest :: fates rest
    | none => fates rest

/-- The texts that were deleted, in order. -/
def deletedSpans (calls : List Call) : List Span :=
  calls.flatMap deleted

/-- The texts that were deleted in one batch with other requests. -/
def rewrittenSpans (calls : List Call) : List Span :=
  (calls.filter (·.cleared?.isNone)).flatMap deleted

theorem fates_cons_of_some {call : Call} {index : Int} (h : call.cleared? = some index)
    (rest : List Call) : fates (call :: rest) = fate index rest :: fates rest := by
  rw [fates, h]

theorem fates_cons_of_none {call : Call} (h : call.cleared? = none) (rest : List Call) :
    fates (call :: rest) = fates rest := by
  rw [fates, h]

theorem length_deleted_of_cleared? {call : Call} {index : Int} (h : call.cleared? = some index) :
    call.deleted.length = 1 := by
  unfold cleared? at h
  split at h
  next r =>
    obtain ⟨span, hspan, -⟩ := Option.map_eq_some_iff.1 h
    rw [deleted, List.filterMap_cons_some hspan]
    rfl
  next => cases h

/-- A text is deleted by itself or in one batch with other requests. -/
theorem length_deletedSpans (calls : List Call) :
    (deletedSpans calls).length = (fates calls).length + (rewrittenSpans calls).length := by
  induction calls with
  | nil => rfl
  | cons call rest ih =>
    rw [deletedSpans] at ih ⊢
    rw [rewrittenSpans] at ih ⊢
    rw [List.flatMap_cons, List.length_append, ih]
    cases hcleared : call.cleared? with
    | some index =>
      rw [fates_cons_of_some hcleared, List.filter_cons_of_neg (by simp [hcleared]),
        length_deleted_of_cleared? hcleared, List.length_cons]
      omega
    | none =>
      rw [fates_cons_of_none hcleared, List.filter_cons_of_pos (by simp [hcleared]),
        List.flatMap_cons, List.length_append]
      omega

theorem rewrittenSpans_append (xs ys : List Call) :
    rewrittenSpans (xs ++ ys) = rewrittenSpans xs ++ rewrittenSpans ys := by
  rw [rewrittenSpans, List.filter_append, List.flatMap_append]
  rfl

/-- Calls that clear no text have no say in what became of the text behind them. -/
theorem fates_append_of_none
    {calls : List Call} (h : ∀ call ∈ calls, call.cleared? = none) (rest : List Call) :
    fates (calls ++ rest) = fates rest := by
  induction calls with
  | nil => rfl
  | cons call calls ih =>
    rw [List.cons_append, fates_cons_of_none (h call List.mem_cons_self)]
    exact ih fun other hother => h other (List.mem_cons_of_mem _ hother)

theorem fates_eq_nil {calls : List Call} (h : ∀ call ∈ calls, call.cleared? = none) :
    fates calls = [] := by
  have hfates := fates_append_of_none h []
  rwa [List.append_nil] at hfates

/-! ## The calls for one image -/

/-- The call for an image. -/
def image (index : Int) (spec : ImageSpec) : Bool → Call :=
  .update [.insertImage index spec.url spec.width spec.height]

theorem fate_image (index : Int) (spec : ImageSpec) (carriedOut : Bool) (rest : List Call) :
    fate index (image index spec carriedOut :: rest) =
      if carriedOut then .replaced
      else if fate index rest = .replaced then .replaced else .lost := by
  rw [image, fate, if_pos rfl]

/-- An image that is put in at last takes the place of the text. -/
theorem fate_images_true (index : Int) (spec : ImageSpec) (n : Nat) (rest : List Call) :
    fate index (List.replicate n (image index spec false) ++ image index spec true :: rest) =
      .replaced := by
  induction n with
  | zero => exact fate_image index spec true rest
  | succ n ih =>
    rw [List.replicate_succ, List.cons_append, fate_image, ih]
    rfl

/-- The next call is to fetch the document, or there is none. -/
def Fresh (rest : List Call) : Prop :=
  rest = [] ∨ ∃ more, rest = .fetch :: more

theorem fate_of_fresh {rest : List Call} (h : Fresh rest) (index : Int) :
    fate index rest = .bare := by
  rcases h with rfl | ⟨more, rfl⟩
  · rfl
  · rfl

/-- An image that is refused each time leaves the text lost. -/
theorem fate_images_false
    (index : Int) (spec : ImageSpec) (n : Nat) {rest : List Call} (h : Fresh rest) :
    fate index (List.replicate n (image index spec false) ++ image index spec false :: rest) =
      .lost := by
  induction n with
  | zero =>
    rw [List.replicate_zero, List.nil_append, fate_image, fate_of_fresh h]
    rfl
  | succ n ih =>
    rw [List.replicate_succ, List.cons_append, fate_image, ih]
    rfl

/-! ## Calls that are accounted for -/

/-- What became of every text that the calls clear is settled by the calls themselves, when they are
followed as they should be.  At most so many texts are lost and none is left without an answer, and
under a condition none is written over. -/
structure Accounted (follow : List Call → Prop) (bound : Nat) (condition : Prop)
    (calls : List Call) : Prop where
  append : ∀ rest, follow rest → fates (calls ++ rest) = fates calls ++ fates rest
  answered : .bare ∉ fates calls
  lost : (fates calls).count .lost ≤ bound
  kept : condition → rewrittenSpans calls = []

namespace Accounted

variable {follow : List Call → Prop} {bound : Nat} {condition : Prop} {calls more : List Call}

theorem of_cleared_none
    (hclear : ∀ call ∈ calls, call.cleared? = none) (hkept : condition → rewrittenSpans calls = []) :
    Accounted follow bound condition calls := by
  have hfates := fates_eq_nil hclear
  refine ⟨?_, ?_, ?_, hkept⟩
  · intro rest _
    rw [fates_append_of_none hclear, hfates, List.nil_append]
  · rw [hfates]
    exact List.not_mem_nil
  · rw [hfates, List.count_nil]
    exact Nat.zero_le bound

theorem nil : Accounted follow bound condition [] :=
  of_cleared_none (by simp) fun _ => rfl

theorem mono {follow' : List Call → Prop} {bound' : Nat}
    (h : Accounted follow bound condition calls) (hfollow : ∀ rest, follow' rest → follow rest)
    (hbound : bound ≤ bound') : Accounted follow' bound' condition calls :=
  ⟨fun rest hrest => h.append rest (hfollow rest hrest), h.answered, h.lost.trans hbound, h.kept⟩

/-- Calls that follow one another as they should are accounted for together. -/
theorem concat
    {follow' : List Call → Prop} {bound' : Nat} (h : Accounted follow bound condition calls)
    (h' : Accounted follow' bound' condition more)
    (hfollow : ∀ rest, follow' rest → follow (more ++ rest)) (hmore : follow more) :
    Accounted follow' (bound + bound') condition (calls ++ more) := by
  have hfates := h.append more hmore
  refine ⟨?_, ?_, ?_, ?_⟩
  · intro rest hrest
    rw [List.append_assoc, h.append _ (hfollow rest hrest), h'.append rest hrest, hfates,
      List.append_assoc]
  · rw [hfates, List.mem_append]
    rintro (hbare | hbare)
    · exact h.answered hbare
    · exact h'.answered hbare
  · rw [hfates, List.count_append]
    exact Nat.add_le_add h.lost h'.lost
  · intro hcondition
    rw [rewrittenSpans_append, h.kept hcondition, h'.kept hcondition, List.append_nil]

end Accounted

/-- The calls lose no text, whatever follows them. -/
abbrev Whole (condition : Prop) : List Call → Prop :=
  Accounted (fun _ => True) 0 condition

/-- The calls lose one text at most, when the document is fetched next. -/
abbrev Cut (condition : Prop) : List Call → Prop :=
  Accounted Fresh 1 condition

theorem Whole.cut {condition : Prop} {calls : List Call} (h : Whole condition calls) :
    Cut condition calls :=
  h.mono (fun _ _ => trivial) (Nat.zero_le 1)

theorem Whole.append {condition : Prop} {calls more : List Call} (h : Whole condition calls)
    (h' : Whole condition more) : Whole condition (calls ++ more) :=
  h.concat h' (fun _ _ => trivial) trivial

theorem Whole.append_cut {condition : Prop} {calls more : List Call} (h : Whole condition calls)
    (h' : Cut condition more) : Cut condition (calls ++ more) :=
  (h.concat h' (fun _ _ => trivial) trivial).mono (fun _ h => h) (Nat.le_refl 1)

theorem cleared?_eq_none_of_deleted {call : Call} (h : call.deleted = []) :
    call.cleared? = none := by
  cases hcleared : call.cleared? with
  | none => rfl
  | some index =>
    have hlength := length_deleted_of_cleared? hcleared
    rw [h] at hlength
    cases hlength

/-- Calls that delete nothing lose nothing. -/
theorem whole_of_deleted {condition : Prop} {calls : List Call}
    (h : ∀ call ∈ calls, call.deleted = []) : Whole condition calls := by
  refine Accounted.of_cleared_none (fun call hcall => cleared?_eq_none_of_deleted (h call hcall)) ?_
  intro _
  rw [rewrittenSpans, List.flatMap_eq_nil_iff]
  exact fun call hcall => h call (List.mem_of_mem_filter hcall)

/-- A call that was refused has deleted nothing. -/
theorem whole_refused {condition : Prop} (requests : List Request) (n : Nat) :
    Whole condition (List.replicate n (.update requests false)) := by
  refine whole_of_deleted ?_
  intro call hcall
  rw [List.eq_of_mem_replicate hcall]
  rfl

theorem deleted_image (index : Int) (spec : ImageSpec) (carriedOut : Bool) :
    (image index spec carriedOut).deleted = [] := by
  cases carriedOut with
  | false => rfl
  | true => rfl

theorem deleted_of_mem_images
    {index : Int} {spec : ImageSpec} {n : Nat} {carriedOut : Bool} {call : Call}
    (h : call ∈ List.replicate n (image index spec false) ++ [image index spec carriedOut]) :
    call.deleted = [] := by
  rcases List.mem_append.1 h with h | h
  · rw [List.eq_of_mem_replicate h]
    exact deleted_image index spec false
  · rw [List.mem_singleton.1 h]
    exact deleted_image index spec carriedOut

/-- Text that is cleared, and the calls for the image in its place. -/
theorem accounted_cleared
    {follow : List Call → Prop} {bound : Nat} {condition : Prop} {start stop : Int}
    {images : List Call} (f : Fate) (hstart : start < stop)
    (himages : ∀ call ∈ images, call.deleted = [])
    (hfate : ∀ rest, follow rest → fate start (images ++ rest) = f) (hnil : follow [])
    (hanswered : f ≠ .bare) (hlost : [f].count .lost ≤ bound) :
    Accounted follow bound condition (.update [Request.delete start stop] true :: images) := by
  have hcleared : cleared? (.update [Request.delete start stop] true) = some start := by
    rw [cleared?, Request.delete, Request.deletedSpan?, if_pos hstart]
    rfl
  have hquiet : Whole condition images := whole_of_deleted himages
  have hfates : fates (.update [Request.delete start stop] true :: images) = [f] := by
    have hend := hfate [] hnil
    rw [List.append_nil] at hend
    rw [fates_cons_of_some hcleared, hend,
      fates_eq_nil fun call hcall => cleared?_eq_none_of_deleted (himages call hcall)]
  refine ⟨?_, ?_, ?_, ?_⟩
  · intro rest hrest
    rw [hfates, List.cons_append, fates_cons_of_some hcleared, hfate rest hrest,
      fates_append_of_none fun call hcall => cleared?_eq_none_of_deleted (himages call hcall)]
    rfl
  · rw [hfates, List.mem_singleton]
    exact hanswered.symm
  · rw [hfates]
    exact hlost
  · intro hcondition
    rw [rewrittenSpans, List.filter_cons_of_neg (by simp [hcleared])]
    exact hquiet.kept hcondition

end Call

/-! ## Computations that are accounted for -/

namespace Run

open Call (Whole Cut)

variable {σ α β γ : Type} {s : Session σ} {record : σ → List Call} {condition : Prop}

/-- Whatever the service answers, the computation loses no text when it ends with a value, and one
at most when it ends with a fault. -/
def Accounts (s : Session σ) (record : σ → List Call) (condition : Prop) (x : Run σ α)
    (result : α → Prop) : Prop :=
  Traces s record x (fun a calls => result a ∧ Whole condition calls) (Cut condition)

namespace Accounts

theorem pure {result : α → Prop} {a : α} (h : result a) :
    Accounts s record condition (Pure.pure a) result :=
  Traces.pure ⟨h, .nil⟩

theorem throw {result : α → Prop} (fault : Fault) :
    Accounts s record condition (MonadExcept.throw fault) result :=
  Traces.throw .nil fault

theorem bind
    {x : Run σ α} {f : α → Run σ β} {result : α → Prop} {result' : β → Prop}
    (hx : Accounts s record condition x result)
    (hf : ∀ a, result a → Accounts s record condition (f a) result') :
    Accounts s record condition (x >>= f) result' := by
  refine Traces.bind hx (fun _ h => h) ?_
  rintro a calls ⟨ha, hcalls⟩
  refine (hf a ha).mono ?_ ?_
  · rintro b more ⟨hb, hmore⟩
    exact ⟨hb, hcalls.append hmore⟩
  · intro more hmore
    exact hcalls.append_cut hmore

theorem discard {x : Run σ α} {result : α → Prop} (hx : Accounts s record condition x result) :
    Accounts s record condition (Functor.discard x) fun _ => True := by
  have heq : Functor.discard x = x >>= fun _ => Pure.pure () := rfl
  rw [heq]
  exact hx.bind fun _ _ => pure trivial

theorem ofLimited {x : Except Limit α} {result : α → Prop} (h : ∀ a, x = .ok a → result a) :
    Accounts s record condition (Run.ofLimited x) result := by
  cases x with
  | error limit => exact throw _
  | ok a => exact pure (h a rfl)

theorem mapM
    {f : γ → Run σ α} {items : List γ} {result : α → Prop}
    (h : ∀ item ∈ items, Accounts s record condition (f item) result) :
    Accounts s record condition (items.mapM f) fun values => ∀ a ∈ values, result a := by
  induction items with
  | nil => exact pure (by simp)
  | cons item rest ih =>
    rw [List.mapM_cons]
    refine (h item List.mem_cons_self).bind fun a ha => ?_
    refine (ih fun other hother => h other (List.mem_cons_of_mem _ hother)).bind fun values hvalues =>
      pure ?_
    exact List.forall_mem_cons.2 ⟨ha, hvalues⟩

theorem foldlM
    {step : β → γ → Run σ β} {items : List γ}
    (h : ∀ item ∈ items, ∀ b, Accounts s record condition (step b item) fun _ => True) (b : β) :
    Accounts s record condition (items.foldlM step b) fun _ => True := by
  induction items generalizing b with
  | nil => exact pure trivial
  | cons item rest ih =>
    rw [List.foldlM_cons]
    refine (h item List.mem_cons_self b).bind fun b' _ => ?_
    exact ih (fun other hother => h other (List.mem_cons_of_mem _ hother)) b'

/-- A batch that does not clear text by itself. -/
theorem update
    (hs : s.service.Records record) {requests : List Request}
    (hclear : ∀ span, requests ≠ [.deleteRange span])
    (hkept : condition → ∀ r ∈ requests, r.deletedSpan? = none) :
    Accounts s record condition (Run.update requests) fun _ => True := by
  by_cases hne : requests = []
  · subst hne
    exact pure trivial
  · have hcleared : Call.cleared? (.update requests true) = none := by
      unfold Call.cleared?
      split
      next r heq =>
        cases heq
        cases r with
        | deleteRange span => exact absurd rfl (hclear span)
        | _ => rfl
      next => rfl
    have hdone : Whole condition [.update requests true] := by
      refine Call.Accounted.of_cleared_none ?_ ?_
      · intro call hcall
        rw [List.mem_singleton.1 hcall]
        exact hcleared
      · intro hcondition
        have hdeleted : Call.deleted (.update requests true) = [] :=
          List.filterMap_eq_nil_iff.2 (hkept hcondition)
        rw [Call.rewrittenSpans, List.filter_cons_of_pos (by simp [hcleared]), List.flatMap_cons,
          hdeleted]
        rfl
    refine (Traces.update hs hne).mono ?_ ?_
    · rintro _ _ ⟨n, rfl⟩
      exact ⟨trivial, (Call.whole_refused requests n).append hdone⟩
    · rintro _ ⟨n, rfl⟩
      exact ((Call.whole_refused requests n).append (Call.whole_refused requests 1)).cut

/-- A batch that deletes nothing. -/
theorem update_of_deletes_none
    (hs : s.service.Records record) {requests : List Request}
    (h : ∀ r ∈ requests, ∀ span, r ≠ .deleteRange span) :
    Accounts s record condition (Run.update requests) fun _ => True := by
  refine update hs ?_ ?_
  · rintro span rfl
    exact h _ List.mem_cons_self span rfl
  · intro _ r hr
    cases r with
    | deleteRange span => exact absurd rfl (h _ hr span)
    | _ => rfl

theorem update_of_keepLength
    (hs : s.service.Records record) {requests : List Request} (h : Request.KeepLength requests) :
    Accounts s record condition (Run.update requests) fun _ => True := by
  refine update_of_deletes_none hs ?_
  rintro r hr span rfl
  have hkeep : true = false := h _ hr
  cases hkeep

end Accounts

/-- The computation is accounted for, and when it ends with a value it has fetched the document
before all else. -/
def FetchesFirst (s : Session σ) (record : σ → List Call) (condition : Prop) (x : Run σ α) : Prop :=
  Traces s record x (fun _ calls => calls.head? = some .fetch ∧ Whole condition calls)
    (Cut condition)

namespace FetchesFirst

theorem bind
    {x : Run σ α} {f : α → Run σ β} (hx : FetchesFirst s record condition x)
    (hf : ∀ a, Accounts s record condition (f a) fun _ => True) :
    FetchesFirst s record condition (x >>= f) := by
  refine Traces.bind hx (fun _ h => h) ?_
  rintro a calls ⟨hhead, hcalls⟩
  refine (hf a).mono ?_ ?_
  · rintro b more ⟨-, hmore⟩
    refine ⟨?_, hcalls.append hmore⟩
    rw [List.head?_append, hhead]
    rfl
  · intro more hmore
    exact hcalls.append_cut hmore

theorem fetch (hs : s.service.Records record) : FetchesFirst s record condition Run.fetch := by
  have hcalls : ∀ n, Whole condition (List.replicate n .fetch) := by
    intro n
    refine Call.whole_of_deleted ?_
    intro call hcall
    rw [List.eq_of_mem_replicate hcall]
    rfl
  refine (Traces.fetch hs).mono ?_ ?_
  · rintro _ _ ⟨n, rfl⟩
    exact ⟨rfl, hcalls _⟩
  · rintro _ ⟨n, rfl⟩
    exact (hcalls _).cut

theorem accounts {x : Run σ α} (hx : FetchesFirst s record condition x) :
    Accounts s record condition x fun _ => True :=
  hx.mono (fun _ _ h => ⟨trivial, h.2⟩) fun _ h => h

/-- Reading the pattern comes before the first call. -/
theorem compile_bind [CharNames]
    {f : Pattern → Run σ α} (e : Expression) (hf : ∀ p, FetchesFirst s record condition (f p)) :
    FetchesFirst s record condition (Run.compile e >>= f) := by
  have hcompile : ∀ w, ((Run.compile e : Run σ Pattern).execute s w).2.state = w.state := by
    intro w
    unfold Run.compile
    split
    · rfl
    · rfl
    · rfl
  refine (Traces.of_state_eq hcompile).bind ?_ ?_
  · rintro calls rfl
    exact .nil
  · rintro p calls rfl
    exact hf p

end FetchesFirst

end Run

end Redline
