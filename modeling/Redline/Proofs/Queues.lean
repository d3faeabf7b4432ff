import Redline.Proofs.CellBatch
import Redline.Proofs.Replacing
import Redline.Expression.Reader
import Redline.Routing.Queues

/-!
# Sorting expressions into queues

An expression is sorted by its command, its target, its pattern and its replacement.  Two readings
are made on the way, of a pattern that may name images and of a replacement that may be a table, and
either can stop at a limit.  When none does, every expression stands in exactly one queue, every
queue is in the order of the expressions, and the queue for cells falls into units that are as large
as they may be.

## Main definitions

* `Redline.ImageRef.IsBeyondLimit`: the patterns that name images and cannot be read to the end.
* `Redline.Expression.MeetsLimit`: the expressions that no queue takes.
* `Redline.Queues.Covers`: the queues hold the expressions, each once and in order.
-/

namespace Redline

/-! ## Patterns that name images -/

namespace ImageRef

/-- The pattern names images by a number with too many digits, or by a text whose pattern meets a
limit. -/
inductive IsBeyondLimit [CharNames] (pattern : Text) : Prop where
  | position (opening inner : Text) (e : TooManyDigits)
    (hopening : opening = "!(".toList ∨ opening = "![](".toList)
    (hshape : pattern = opening ++ inner ++ [')'])
    (hnumber : Whole.read? inner = .error e)
  | alt (source : Text) (limit : Limit)
    (hshape : pattern = "![".toList ++ source ++ [']'])
    (hlink : Text.occursIn "](".toList pattern = false)
    (htext : Pattern.read source = .error (.beyond limit))

theorem between?_eq_some_iff
    {opening : String} {closing : Char} (h : closing ∉ opening.toList) {t inner : Text} :
    between? opening closing t = some inner ↔ t = opening.toList ++ inner ++ [closing] := by
  have hlength : opening.length = opening.toList.length := rfl
  constructor
  · intro hbetween
    unfold between? at hbetween
    split at hbetween
    next hends =>
      rw [Bool.and_eq_true, beq_iff_eq] at hends
      obtain ⟨rest, hrest⟩ := List.getLast?_eq_some_iff.1 hends.2
      subst hrest
      -- The closing mark is not one of the opening ones, so they stand before it.
      have hprefix : opening.toList <+: rest := by
        obtain ⟨tail, htail⟩ := List.isPrefixOf_iff_prefix.1 hends.1
        exact isPrefix_of_append_eq htail h
      obtain ⟨tail, rfl⟩ := hprefix
      rw [List.dropLast_concat, hlength, List.drop_left] at hbetween
      rw [Option.some.inj hbetween]
    next => cases hbetween
  · rintro rfl
    have hstarts : Text.startsWith opening.toList (opening.toList ++ inner ++ [closing]) = true := by
      rw [List.append_assoc]
      exact List.isPrefixOf_iff_prefix.2 (List.prefix_append _ _)
    rw [between?, hstarts, List.getLast?_concat, List.dropLast_concat, hlength, List.drop_left]
    simp

theorem readPosition_eq_error_iff {inner : Text} :
    (∃ l, readPosition inner = .error l) ↔ ∃ e, Whole.read? inner = .error e := by
  unfold readPosition
  by_cases hstar : inner = ['*']
  · subst hstar
    constructor
    · rintro ⟨l, hl⟩
      cases hl
    · rintro ⟨e, he⟩
      cases he
  · rw [if_neg (by simpa using hstar)]
    cases Whole.read? inner with
    | error e => exact ⟨fun _ => ⟨e, rfl⟩, fun _ => ⟨.digits e, rfl⟩⟩
    | ok position =>
      constructor
      · rintro ⟨l, hl⟩
        cases position with
        | none => cases hl
        | some i => cases hl
      · rintro ⟨e, he⟩
        cases he

/-- A pattern between square brackets is in none of the forms between parentheses. -/
theorem between?_of_brackets
    {pattern source : Text} (hshape : pattern = "![".toList ++ source ++ [']']) :
    between? "!(" ')' pattern = none ∧ between? "![](" ')' pattern = none ∧
      between? "![" ']' pattern = some source := by
  have hlast : pattern.getLast? ≠ some ')' := by
    rw [hshape, List.getLast?_concat]
    decide
  refine ⟨?_, ?_, (between?_eq_some_iff (by decide)).2 hshape⟩
  · rw [Option.eq_none_iff_forall_ne_some]
    intro inner hinner
    exact hlast ((between?_eq_some_iff (by decide)).1 hinner ▸ List.getLast?_concat)
  · rw [Option.eq_none_iff_forall_ne_some]
    intro inner hinner
    exact hlast ((between?_eq_some_iff (by decide)).1 hinner ▸ List.getLast?_concat)

/-- A limit of the text between brackets is one of the reference. -/
theorem readPattern?_of_beyond [CharNames]
    {pattern source : Text} {limit : Limit} (hshape : pattern = "![".toList ++ source ++ [']'])
    (hlink : Text.occursIn "](".toList pattern = false)
    (htext : Pattern.read source = .error (.beyond limit)) :
    readPattern? pattern = .error limit := by
  obtain ⟨hround, hlinked, hsquare⟩ := between?_of_brackets hshape
  have hsource : source.isEmpty = false := by
    cases source with
    | nil =>
      rw [Pattern.read_of_steps [] rfl (Pattern.steps_of_nil rfl) rfl] at htext
      cases htext
    | cons c rest => rfl
  unfold readPattern?
  rw [hround, hlinked, hsquare]
  simp only [hlink, hsource, htext, Bool.or_self, Bool.false_eq_true, if_false]

/-- Reading a pattern as a reference to images stops only at a limit of its number or its text. -/
theorem readPattern?_eq_error_iff [CharNames] {pattern : Text} :
    (∃ l, readPattern? pattern = .error l) ↔ IsBeyondLimit pattern := by
  have hround : ∀ inner, between? "!(" ')' pattern = some inner ↔ _ :=
    fun _ => between?_eq_some_iff (by decide)
  have hlinked : ∀ inner, between? "![](" ')' pattern = some inner ↔ _ :=
    fun _ => between?_eq_some_iff (by decide)
  have hsquare : ∀ inner, between? "![" ']' pattern = some inner ↔ _ :=
    fun _ => between?_eq_some_iff (by decide)
  constructor
  · rintro ⟨l, hl⟩
    unfold readPattern? at hl
    split at hl
    next inner hinner =>
      obtain ⟨e, he⟩ := readPosition_eq_error_iff.1 ⟨l, hl⟩
      exact .position _ inner e (.inl rfl) ((hround inner).1 hinner) he
    next inner _ hinner =>
      obtain ⟨e, he⟩ := readPosition_eq_error_iff.1 ⟨l, hl⟩
      exact .position _ inner e (.inr rfl) ((hlinked inner).1 hinner) he
    next source _ _ hsource =>
      split at hl
      next => cases hl
      next hplain =>
        rw [Bool.or_eq_true, not_or, Bool.not_eq_true] at hplain
        split at hl
        next => cases hl
        next => cases hl
        next limit hread => exact .alt source limit ((hsquare source).1 hsource) hplain.1 hread
    next => cases hl
  · intro hbeyond
    cases hbeyond with
    | position opening inner e hopening hshape hnumber =>
      unfold readPattern?
      rcases hopening with rfl | rfl
      · rw [(hround inner).2 hshape]
        exact readPosition_eq_error_iff.2 ⟨e, hnumber⟩
      · have hnone : between? "!(" ')' pattern = none := by
          rw [Option.eq_none_iff_forall_ne_some]
          intro other hother
          have hsame := hshape.symm.trans ((hround other).1 hother)
          exact absurd (List.cons.inj (List.cons.inj hsame).2).1 (by decide)
        rw [hnone, (hlinked inner).2 hshape]
        exact readPosition_eq_error_iff.2 ⟨e, hnumber⟩
    | alt source limit hshape hlink htext => exact ⟨limit, readPattern?_of_beyond hshape hlink htext⟩

end ImageRef

/-! ## Kinds -/

namespace Expression

/-- Sorting the expression stops at a limit.  Only the pattern and the replacement of a
substitution in text are read, and the replacement is left alone when it writes an image and the
pattern names none. -/
structure MeetsLimit [CharNames] (e : Expression) : Prop where
  command : e.command = .substitute
  target : e.target = .text
  position : namesPosition e.pattern = false
  limit : ImageRef.IsBeyondLimit e.pattern ∨
    (∃ l, e.tableSpec? = .error l) ∧ ¬ (e.insertsImage = true ∧ e.imageRef? = .ok none)

theorem textKind_eq_error_iff [CharNames] {e : Expression} {ref : Option ImageRef}
    (h : e.imageRef? = .ok ref) :
    (∃ l, e.textKind = .error l) ↔ ∃ l, e.tableSpec? = .error l := by
  unfold textKind
  rw [h]
  cases e.tableSpec? with
  | error l => exact ⟨fun _ => ⟨l, rfl⟩, fun _ => ⟨l, rfl⟩⟩
  | ok spec =>
    constructor
    · rintro ⟨l, hl⟩
      exfalso
      cases spec with
      | some spec => cases hl
      | none =>
        cases ref with
        | some ref => cases hl
        | none => cases hl
    · rintro ⟨l, hl⟩
      cases hl

/-- The kind of a substitution in text that does not name a place, by the images that its pattern
names. -/
theorem kindAmongOthers_of_text [CharNames]
    {e : Expression} (hcommand : e.command = .substitute) (htarget : e.target = .text)
    (hposition : namesPosition e.pattern = false) :
    e.kindAmongOthers = e.imageRef?.bind fun ref =>
      if (ref.isNone && e.insertsImage) = true then .ok .imageInsert else e.textKind := by
  have hplace : e.isPositional = false := by
    rw [isPositional, hposition, Bool.and_false]
  unfold kindAmongOthers
  rw [if_neg (not_not_intro hcommand), htarget]
  simp only [hplace, Bool.false_eq_true, if_false]
  rfl

/-- No other expression is read any further. -/
theorem exists_kind_of_not_text [CharNames]
    {e : Expression}
    (h : ¬ (e.command = .substitute ∧ e.target = .text ∧ namesPosition e.pattern = false)) :
    ∃ kind, e.kindAmongOthers = .ok kind := by
  unfold kindAmongOthers
  by_cases hcommand : e.command = .substitute
  · rw [if_neg (not_not_intro hcommand)]
    cases htarget : e.target with
    | tables selector => exact ⟨.cell, rfl⟩
    | cells ref => exact ⟨.cell, rfl⟩
    | text =>
      have hposition : namesPosition e.pattern = true := by
        by_contra hnone
        exact h ⟨hcommand, htarget, Bool.eq_false_of_not_eq_true hnone⟩
      have hplace : e.isPositional = true := by
        rw [isPositional, hposition, hcommand, htarget]
        rfl
      simp only [hplace, if_true]
      exact ⟨.positional, rfl⟩
  · rw [if_pos hcommand]
    exact ⟨.command, rfl⟩

/-- Exactly the expressions that meet a limit have no kind. -/
theorem kindAmongOthers_eq_error_iff [CharNames] {e : Expression} :
    (∃ l, e.kindAmongOthers = .error l) ↔ e.MeetsLimit := by
  by_cases htext : e.command = .substitute ∧ e.target = .text ∧ namesPosition e.pattern = false
  · obtain ⟨hcommand, htarget, hposition⟩ := htext
    have himages : (∃ l, e.imageRef? = .error l) ↔ ImageRef.IsBeyondLimit e.pattern :=
      ImageRef.readPattern?_eq_error_iff
    have hmeets : e.MeetsLimit ↔ (∃ l, e.imageRef? = .error l) ∨
        (∃ l, e.tableSpec? = .error l) ∧ ¬ (e.insertsImage = true ∧ e.imageRef? = .ok none) := by
      rw [himages]
      exact ⟨fun h => h.limit, fun h => ⟨hcommand, htarget, hposition, h⟩⟩
    rw [hmeets, kindAmongOthers_of_text hcommand htarget hposition]
    cases hread : e.imageRef? with
    | error l => exact ⟨fun _ => .inl ⟨l, rfl⟩, fun _ => ⟨l, rfl⟩⟩
    | ok ref =>
      have htable := textKind_eq_error_iff hread
      show (∃ l, (if (ref.isNone && e.insertsImage) = true then .ok .imageInsert else e.textKind) =
        Except.error l) ↔ _
      by_cases hinsert : (ref.isNone && e.insertsImage) = true
      · rw [if_pos hinsert]
        rw [Bool.and_eq_true, Option.isNone_iff_eq_none] at hinsert
        obtain ⟨rfl, himage⟩ := hinsert
        simp [himage]
      · rw [if_neg hinsert, htable]
        rw [Bool.and_eq_true, Option.isNone_iff_eq_none] at hinsert
        constructor
        · intro hlimit
          refine .inr ⟨hlimit, ?_⟩
          rintro ⟨himage, hnone⟩
          exact hinsert ⟨Except.ok.inj hnone, himage⟩
        · rintro (⟨l, hl⟩ | ⟨hlimit, -⟩)
          · cases hl
          · exact hlimit
  · obtain ⟨kind, hkind⟩ := exists_kind_of_not_text htext
    constructor
    · rintro ⟨l, hl⟩
      cases hkind.symm.trans hl
    · intro hlimit
      exact absurd ⟨hlimit.command, hlimit.target, hlimit.position⟩ htext

end Expression

/-! ## Queues -/

namespace Queues

/-- The names of the queues. -/
inductive Name where
  | positional
  | native
  | manual
  | tableCreate
  | cell
  | images
deriving Repr, DecidableEq

/-- The queue with a name. -/
def queue (q : Queues) : Name → List Numbered
  | .positional => q.positional
  | .native => q.native
  | .manual => q.manual
  | .tableCreate => q.tableCreate
  | .cell => q.cell
  | .images => q.images

/-- The name of the queue for a kind. -/
def Name.ofKind : Kind → Name
  | .positional => .positional
  | .imageInsert => .images
  | .command | .image | .manual => .manual
  | .cell | .tables => .cell
  | .tableCreate => .tableCreate
  | .native => .native

/-- The expressions with their positions. -/
def numbered (es : List Expression) : List Numbered :=
  es.zipIdx.map fun pair => ⟨pair.2, pair.1⟩

/-- The expression has its place in the queue. -/
def belongs [CharNames] (name : Name) (item : Numbered) : Bool :=
  item.expression.kindAmongOthers.toOption.map Name.ofKind == some name

/-- Sort one more expression. -/
def sort [CharNames] (q : Queues) (item : Numbered) : Except Limit Queues := do
  return q.add item (← item.expression.kindAmongOthers)

theorem ofExpressions_eq_foldlM [CharNames] (es : List Expression) :
    ofExpressions es = (numbered es).foldlM sort {} := by
  rw [numbered, List.foldlM_map]
  rfl

@[simp]
theorem mem_numbered {es : List Expression} {item : Numbered} :
    item ∈ numbered es ↔ es[item.position]? = some item.expression := by
  obtain ⟨i, e⟩ := item
  rw [numbered, List.mem_map]
  constructor
  · rintro ⟨⟨e', i'⟩, hmem, hitem⟩
    cases hitem
    exact List.mem_zipIdx_iff_getElem?.1 hmem
  · intro he
    exact ⟨(e, i), List.mem_zipIdx_iff_getElem?.2 he, rfl⟩

theorem belongs_iff [CharNames] {name : Name} {item : Numbered} {kind : Kind}
    (h : item.expression.kindAmongOthers = .ok kind) :
    belongs name item = true ↔ name = .ofKind kind := by
  rw [belongs, h, beq_iff_eq]
  exact ⟨fun hname => (Option.some.inj hname).symm, fun hname => congrArg some hname.symm⟩

/-- An item is added at the end of the queue for its kind, and the others stay as they are. -/
theorem queue_add (q : Queues) (item : Numbered) (kind : Kind) (name : Name) :
    (q.add item kind).queue name =
      q.queue name ++ if name = .ofKind kind then [item] else [] := by
  cases kind <;> cases name <;> simp [add, queue, Name.ofKind]

/-- What one step of sorting adds to a queue. -/
theorem queue_sort [CharNames] {q q' : Queues} {item : Numbered} (h : q.sort item = .ok q')
    (name : Name) :
    q'.queue name = q.queue name ++ [item].filter (belongs name) := by
  cases hkind : item.expression.kindAmongOthers with
  | error l =>
    rw [sort, hkind] at h
    cases h
  | ok kind =>
    rw [sort, hkind] at h
    cases h
    rw [queue_add]
    by_cases hname : name = .ofKind kind
    · rw [if_pos hname, List.filter_cons_of_pos ((belongs_iff hkind).2 hname), List.filter_nil]
    · rw [if_neg hname, List.filter_cons_of_neg (mt (belongs_iff hkind).1 hname), List.filter_nil]

/-- What sorting adds to a queue: the items that belong there, in order. -/
theorem queue_foldlM_sort [CharNames]
    {items : List Numbered} {q q' : Queues} (h : items.foldlM sort q = .ok q') (name : Name) :
    q'.queue name = q.queue name ++ items.filter (belongs name) := by
  induction items generalizing q with
  | nil =>
    cases h
    rw [List.filter_nil, List.append_nil]
  | cons item rest ih =>
    rw [List.foldlM_cons] at h
    obtain ⟨next, hnext, hrest⟩ := exists_of_bind_eq_ok h
    rw [ih hrest, queue_sort hnext, List.append_assoc, ← List.filter_append, List.singleton_append]

/-- A queue has the expressions that belong there, in order. -/
theorem queue_of_ofExpressions [CharNames]
    {es : List Expression} {q : Queues} (h : ofExpressions es = .ok q) (name : Name) :
    q.queue name = (numbered es).filter (belongs name) := by
  rw [ofExpressions_eq_foldlM] at h
  rw [queue_foldlM_sort h]
  cases name <;> rfl

/-- Sorting ends exactly when no item meets a limit. -/
theorem exists_foldlM_sort_iff [CharNames] {items : List Numbered} {q : Queues} :
    (∃ q', items.foldlM sort q = .ok q') ↔ ∀ item ∈ items, ¬ item.expression.MeetsLimit := by
  induction items generalizing q with
  | nil =>
    constructor
    · intro _ item hitem
      cases hitem
    · intro _
      exact ⟨q, rfl⟩
  | cons item rest ih =>
    rw [List.foldlM_cons, List.forall_mem_cons, ← Expression.kindAmongOthers_eq_error_iff, sort]
    cases hkind : item.expression.kindAmongOthers with
    | error l =>
      constructor
      · rintro ⟨q', hq'⟩
        cases hq'
      · rintro ⟨hnone, -⟩
        exact absurd ⟨l, rfl⟩ hnone
    | ok kind =>
      have hnone : ¬ ∃ l, (Except.ok kind : Except Limit Kind) = .error l := by
        rintro ⟨l, hl⟩
        cases hl
      exact (ih (q := q.add item kind)).trans ⟨fun h => ⟨hnone, h⟩, fun h => h.2⟩

/-! ## Units -/

/-- The items write single cells of one table, so that they can be sent together. -/
def Joinable (items : List Numbered) : Prop :=
  ∃ selector, ∀ item ∈ items, item.expression.replacesOneCell = true ∧
    item.expression.cells?.map (·.table) = some selector

theorem Joinable.mono {items more : List Numbered} (h : Joinable more) (hsub : items ⊆ more) :
    Joinable items := by
  obtain ⟨selector, hitems⟩ := h
  exact ⟨selector, fun item hitem => hitems item (hsub hitem)⟩

theorem Joinable.sameUnit {items : List Numbered} (h : Joinable items) {a b : Numbered}
    (ha : a ∈ items) (hb : b ∈ items) : sameUnit a b = true := by
  obtain ⟨selector, hitems⟩ := h
  obtain ⟨hcell, htable⟩ := hitems a ha
  obtain ⟨hcell', htable'⟩ := hitems b hb
  rw [Queues.sameUnit, hcell, hcell', htable, htable']
  simp

theorem flatten_units (items : List Numbered) : (units items).flatten = items := by
  induction items with
  | nil => rfl
  | cons item rest ih =>
    rw [units]
    split
    next next unit others hrest =>
      rw [hrest] at ih
      split <;> rw [← ih] <;> rfl
    next others _ => rw [List.flatten_cons, ih, List.singleton_append]

theorem nil_notMem_units (items : List Numbered) : [] ∉ units items := by
  have hcons : ∀ (item : Numbered) (unit : List Numbered) {others : List (List Numbered)},
      [] ∉ others → [] ∉ (item :: unit) :: others := by
    intro item unit others hothers hmem
    rcases List.mem_cons.1 hmem with hnil | hmem
    · cases hnil
    · exact hothers hmem
  induction items with
  | nil => exact List.not_mem_nil
  | cons item rest ih =>
    rw [units]
    split
    next next unit others hrest =>
      rw [hrest] at ih
      split
      · exact hcons item _ fun hmem => ih (List.mem_cons_of_mem _ hmem)
      · exact hcons item [] ih
    next => exact hcons item [] ih

/-- A unit of several items can be sent together. -/
theorem joinable_of_mem_units
    {items unit : List Numbered} (hunit : unit ∈ units items) (hmany : 1 < unit.length) :
    Joinable unit := by
  obtain ⟨selector, hwrites⟩ := Session.exists_writesTable hunit hmany
  refine ⟨selector, ?_⟩
  intro item hitem
  obtain ⟨ref, hcells, hcell, rfl⟩ := hwrites item hitem
  constructor
  · simp [Expression.replacesOneCell, hcells, hcell.pattern, hcell.row, hcell.column, hcell.range,
      hcell.change, hcell.merge]
  · rw [hcells]
    rfl

/-- No unit can be sent together with the next one. -/
theorem isChain_units (items : List Numbered) :
    (units items).IsChain fun unit next => ¬ Joinable (unit ++ next) := by
  induction items with
  | nil => exact .nil
  | cons item rest ih =>
    rw [units]
    split
    next next unit others hrest =>
      rw [hrest] at ih
      split
      next hsame =>
        cases others with
        | nil => exact .singleton _
        | cons second others =>
          obtain ⟨hapart, hothers⟩ := List.isChain_cons_cons.1 ih
          refine .cons_cons ?_ hothers
          intro hjoin
          exact hapart (hjoin.mono (List.subset_cons_self item _))
      next hother =>
        refine .cons_cons ?_ ih
        intro hjoin
        exact hother (hjoin.sameUnit List.mem_cons_self
          (List.mem_cons_of_mem _ List.mem_cons_self))
    next others hothers =>
      cases hrest : units rest with
      | nil => exact .singleton _
      | cons unit more =>
        cases unit with
        | nil => exact absurd (hrest ▸ List.mem_cons_self) (nil_notMem_units rest)
        | cons next unit => exact absurd hrest (hothers next unit more)

/-! ## The whole schedule -/

/-- The queues hold the expressions, each once and in order, and the units of the queue for cells
are as large as they may be. -/
structure Covers (q : Queues) (es : List Expression) : Prop where
  lands : ∀ (i : Nat) (e : Expression), es[i]? = some e → ∃! name, ⟨i, e⟩ ∈ q.queue name
  inOrder : ∀ name, (q.queue name).Sublist (numbered es)
  flatten : (units q.cell).flatten = q.cell
  nonempty : [] ∉ units q.cell
  joined : ∀ unit ∈ units q.cell, 1 < unit.length → Joinable unit
  apart : (units q.cell).IsChain fun unit next => ¬ Joinable (unit ++ next)

theorem covers_of_ofExpressions [CharNames] {es : List Expression} {q : Queues}
    (h : ofExpressions es = .ok q) :
    q.Covers es := by
  have hqueue := queue_of_ofExpressions h
  rw [ofExpressions_eq_foldlM] at h
  refine ⟨?_, ?_, flatten_units _, nil_notMem_units _, fun _ => joinable_of_mem_units,
    isChain_units _⟩
  · intro i e he
    have hitem : ⟨i, e⟩ ∈ numbered es := mem_numbered.2 he
    have hlimit := exists_foldlM_sort_iff.1 ⟨q, h⟩ _ hitem
    cases hkind : e.kindAmongOthers with
    | error l => exact absurd (Expression.kindAmongOthers_eq_error_iff.1 ⟨l, hkind⟩) hlimit
    | ok kind =>
      have hmem : ∀ name, ⟨i, e⟩ ∈ q.queue name ↔ name = .ofKind kind := by
        intro name
        rw [hqueue, List.mem_filter, belongs_iff hkind]
        exact and_iff_right hitem
      exact ⟨.ofKind kind, (hmem _).2 rfl, fun name hname => (hmem name).1 hname⟩
  · intro name
    rw [hqueue]
    exact List.filter_sublist

/-- Sorting loses and repeats nothing, for exactly the expressions of which none meets a limit. -/
theorem exists_covers_iff [CharNames] (es : List Expression) :
    (∃ q, ofExpressions es = .ok q ∧ q.Covers es) ↔ ∀ e ∈ es, ¬ e.MeetsLimit := by
  have hitems : (∀ item ∈ numbered es, ¬ item.expression.MeetsLimit) ↔
      ∀ e ∈ es, ¬ e.MeetsLimit := by
    constructor
    · intro h e he
      obtain ⟨i, hi⟩ := List.mem_iff_getElem?.1 he
      exact h ⟨i, e⟩ (mem_numbered.2 hi)
    · intro h item hitem
      exact h _ (List.mem_of_getElem? (mem_numbered.1 hitem))
  rw [← hitems, ← exists_foldlM_sort_iff (q := {}), ← ofExpressions_eq_foldlM]
  constructor
  · rintro ⟨q, hq, -⟩
    exact ⟨q, hq⟩
  · rintro ⟨q, hq⟩
    exact ⟨q, hq, covers_of_ofExpressions hq⟩

/-- A substitution for images by a text that is to be repeated more often than is counted. -/
def repeatedImage : Expression where
  pattern := "![a\x7b99999999999\x7d]".toList
  replacement := ['x']
  raw := "s/![a\x7b99999999999\x7d]/x/".toList

/-- A substitution that the service makes everywhere at once. -/
def letterEverywhere : Expression where
  pattern := ['b']
  replacement := ['c']
  isGlobal := true
  raw := "s/b/c/g".toList

attribute [local instance] CharNames.none

/-- Two expressions can be read, and neither comes into a queue. -/
theorem ofExpressions_repeatedImage :
    Expression.readAll
        ["s/![a\x7b99999999999\x7d]/x/".toList, "s/b/c/g".toList] =
      .ok [repeatedImage, letterEverywhere] ∧
    ofExpressions [repeatedImage, letterEverywhere] = .error .repetition := by
  have hsteps : Pattern.steps 14 { rest := "a\x7b99999999999\x7d".toList } =
      .error (.beyond .repetition) := by
    rw [Pattern.steps_of_step (by decide) rfl (by decide), Pattern.steps]
    rfl
  have htext : Pattern.read "a\x7b99999999999\x7d".toList = .error (.beyond .repetition) := by
    unfold Pattern.read
    show Except.bind (Pattern.steps 14 { rest := "a\x7b99999999999\x7d".toList }) _ = _
    rw [hsteps]
    rfl
  have himages : repeatedImage.imageRef? = .error .repetition :=
    ImageRef.readPattern?_of_beyond rfl rfl htext
  have hkind : repeatedImage.kindAmongOthers = .error .repetition := by
    rw [Expression.kindAmongOthers_of_text rfl rfl rfl, himages]
    rfl
  refine ⟨rfl, ?_⟩
  rw [ofExpressions_eq_foldlM]
  show Except.bind (sort {} ⟨0, repeatedImage⟩) _ = _
  rw [sort, show (⟨0, repeatedImage⟩ : Numbered).expression = repeatedImage from rfl, hkind]
  rfl

end Queues

end Redline
