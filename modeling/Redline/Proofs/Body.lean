import Redline.Proofs.Run
import Redline.Proofs.Splice
import Redline.Text.Units

/-!
# The text of the body

The body of a document is a sequence of index units: the 16-bit units of its text, one unit for each
image, each footnote reference and each other object in the text, and one for each mark of a table.
This module says what a request does to the body, for the requests whose effect on the text is
settled by their positions, and what it means for a service to carry requests out to the letter.
-/

namespace Redline

/-- The marks of a table: its start, the starts of its rows and cells, and its end. -/
inductive TableMark where
  | table
  | row
  | cell
  | tableEnd
deriving Repr, DecidableEq

/-- An index unit of the body. -/
inductive BodyUnit where
  /-- A 16-bit unit of text. -/
  | code (unit : UInt16)
  | image (url : Text) (width height : Int)
  | footnote
  /-- An object of another kind, by its name. -/
  | object (name : Text)
  | mark (m : TableMark)
deriving Repr, DecidableEq

/-- The index units of the body in order. -/
abbrev Body := List BodyUnit

namespace Body

/-- The units of a character: one in the basic plane, and a pair beyond it. -/
def ofChar (c : Char) : Body :=
  if c.toNat < 0x10000 then [.code c.toNat.toUInt16]
  else
    [.code (0xD800 + (c.toNat - 0x10000) / 0x400).toUInt16,
      .code (0xDC00 + (c.toNat - 0x10000) % 0x400).toUInt16]

/-- The units of a text. -/
def ofText (t : Text) : Body :=
  t.flatMap ofChar

@[simp]
theorem length_ofText (t : Text) : (ofText t).length = t.units := by
  induction t with
  | nil => rfl
  | cons c rest ih =>
    have hchar : (ofChar c).length = charUnits c := by
      unfold ofChar charUnits
      split
      · rfl
      · rfl
    rw [ofText, List.flatMap_cons, List.length_append, hchar, Text.units_cons, ← ih]
    rfl

@[simp]
theorem ofText_nil : ofText [] = [] :=
  rfl

theorem ofText_append (s t : Text) : ofText (s ++ t) = ofText s ++ ofText t :=
  List.flatMap_append

/-- Put units into the body at a position within it. -/
def insert? (body : Body) (index : Int) (new : Body) : Option Body :=
  if 0 ≤ index ∧ index ≤ body.length then
    some (body.take index.toNat ++ new ++ body.drop index.toNat)
  else none

/-- Take the units of a part out of the body.  The part may be empty, and must lie within it. -/
def delete? (body : Body) (span : Span) : Option Body :=
  if 0 ≤ span.start ∧ span.start ≤ span.stop ∧ span.stop ≤ body.length then
    some (body.take span.start.toNat ++ body.drop span.stop.toNat)
  else none

end Body

namespace Request

/-- The body after a request.  A request that is out of place has no effect to speak of, nor has one
whose effect on the text is more than its positions tell. -/
def carryOut? (body : Body) : Request → Option Body
  | .insertText index text segment =>
    if segment.isEmpty then body.insert? index (.ofText text) else some body
  | .deleteRange span => body.delete? span
  | .insertImage index url width height => body.insert? index [.image url width height]
  | .createFootnote index => body.insert? index [.footnote]
  | .styleText _ _ _ | .styleParagraphs _ _ | .nameRange _ _ | .setColumns _ _ => some body
  | _ => none

/-- The body after the requests of a batch, each on the body that the one before has left. -/
def carryOutAll? (requests : List Request) (body : Body) : Option Body :=
  requests.foldlM carryOut? body

theorem carryOutAll?_append (xs ys : List Request) (body : Body) :
    carryOutAll? (xs ++ ys) body = (carryOutAll? xs body).bind (carryOutAll? ys) := by
  simp only [carryOutAll?, List.foldlM_append]
  rfl

@[simp]
theorem carryOutAll?_nil (body : Body) : carryOutAll? [] body = some body :=
  rfl

theorem carryOutAll?_cons (r : Request) (rest : List Request) (body : Body) :
    carryOutAll? (r :: rest) body = (carryOut? body r).bind (carryOutAll? rest) := by
  simp only [carryOutAll?, List.foldlM_cons]
  rfl

/-- The request sets the style of text. -/
def StylesText (r : Request) : Prop :=
  ∃ span settings mask, r = .styleText span settings mask

/-- Styles leave the text as it is. -/
theorem carryOutAll?_styles
    {requests : List Request} (h : ∀ r ∈ requests, r.StylesText) (body : Body) :
    carryOutAll? requests body = some body := by
  induction requests with
  | nil => rfl
  | cons r rest ih =>
    obtain ⟨span, settings, mask, rfl⟩ := h r List.mem_cons_self
    rw [carryOutAll?_cons]
    exact ih fun r hr => h r (List.mem_cons_of_mem _ hr)

section Splice

variable {s : Splice BodyUnit} {body : Body}

/-- A part is taken out by a request to delete it, or without any request when it is empty. -/
theorem carryOutAll?_removal
    {start stop : Int} (hstart : start = s.start) (hstop : stop = s.stop)
    (h : s.start ≤ s.stop) (hb : s.stop ≤ body.length) :
    carryOutAll? (if start < stop then [.delete start stop] else []) body =
      some (body.take s.start ++ body.drop s.stop) := by
  subst hstart hstop
  split
  · rw [carryOutAll?_cons, delete, carryOut?, Body.delete?, if_pos (by simp only []; omega)]
    rfl
  · rw [carryOutAll?_nil, show s.stop = s.start by omega, List.take_append_drop]

/-- Content that is put in at the start of a part that was taken out makes up the splice. -/
theorem insert?_removed
    {index : Int} (hindex : index = s.start) (h : s.start ≤ s.stop) (hb : s.stop ≤ body.length) :
    Body.insert? (body.take s.start ++ body.drop s.stop) index s.content =
      some (s.apply body) := by
  subst hindex
  have hlen : (body.take s.start).length = s.start := by
    rw [List.length_take]
    omega
  rw [Body.insert?, if_pos (by rw [List.length_append, hlen]; omega), Int.toNat_natCast,
    List.take_left' hlen, List.drop_left' hlen, Splice.apply]

end Splice

end Request

/-- A service with a body in its state that carries out every batch to the letter. -/
structure Service.Literal {σ : Type} (service : Service σ) (view : σ → Body) : Prop where
  update : ∀ {requests : List Request} {state : σ} {body : Body},
    Request.carryOutAll? requests (view state) = some body →
      ∃ response state', service.update requests state = (.ok response, state') ∧
        view state' = body

/-- A service that keeps nothing but the body. -/
def Service.ofBody : Service Body where
  fetch body := (.error (.other []), body)
  update requests body :=
    match Request.carryOutAll? requests body with
    | some body' => (.ok {}, body')
    | none => (.error (.http (some 400) []), body)

theorem Service.literal_ofBody : Service.ofBody.Literal id := by
  refine ⟨fun {requests body body'} h => ⟨{}, body', ?_, rfl⟩⟩
  simp only [Service.ofBody]
  rw [show Request.carryOutAll? requests body = some body' from h]

namespace Run.Ensures

variable {σ : Type} {s : Session σ} {view : σ → Body}

/-- What a batch does to the body of a literal service. -/
theorem update
    (hs : s.service.Literal view) {requests : List Request} {body body' : Body}
    (h : Request.carryOutAll? requests body = some body') :
    Ensures s (fun w => view w.state = body) (Run.update requests)
      fun _ w => view w.state = body' := by
  refine of_update (P := fun state => view state = body) (Q := fun state => view state = body')
    ?_ ?_
  · rintro rfl state hstate
    exact hstate.trans (Option.some.inj h)
  · rintro state rfl
    exact hs.update h

end Run.Ensures

end Redline
