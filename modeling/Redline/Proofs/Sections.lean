import Redline.Document.Section
import Redline.Proofs.Falling

/-!
# The section around a text

The section of a text should reach from the last break before the text to the first one behind it.
The elements of the body are gone through once: breaks before the text move the start, elements
behind it move the end, and a break behind the text ends the search only as long as the end has not
been moved.  So the start is always right, and the end is right when no break follows, or when the
text stands at the end of its element and a break comes next.  In all other cases the breaks behind
the text are passed over and the end of the body is taken.
-/

namespace Redline

namespace Document

variable {d : Document} {text span : Span} {e : Element} {before after rest : List Element}

/-! ## One element -/

theorem given_of_pos {position : Option Int} (h : 0 < position.getD 0) (name : String) :
    given position name = .ok (position.getD 0) := by
  cases position with
  | none => exact absurd h (Int.lt_irrefl 0)
  | some p => rfl

/-- An element before the text moves the start of the section to its end if it is a break. -/
theorem widen_cons_before
    (hpos : 0 < e.bounds.stop) (hbefore : e.bounds.stop ≤ text.start)
    (hstart : e.bounds.start ≤ text.stop) (hspan : e.bounds.stop ≤ span.stop) :
    widen text span (e :: rest) =
      widen text ⟨if e.isBreak then e.bounds.stop else span.start, span.stop⟩ rest := by
  have hgiven : given e.bounds.stop? "endIndex" = .ok e.bounds.stop := given_of_pos hpos _
  rw [widen]
  cases e.isBreak with
  | false => simp [Int.not_lt.2 hspan]
  | true =>
    simp only [hbefore, hgiven, Int.not_lt.2 hstart, Int.not_lt.2 hspan, decide_true, decide_false,
      Bool.and_self, Bool.and_false, Bool.false_and, Bool.false_eq_true, ↓reduceIte, pure_bind]
    rfl

/-- An element that reaches behind the text moves the end of the section to its own, unless it is
a break that ends the search. -/
theorem widen_cons_behind
    (hpos : 0 < e.bounds.stop) (hbehind : text.start < e.bounds.stop)
    (hspan : span.stop ≤ e.bounds.stop) (hgoes : e.isBreak = true → span.stop ≠ text.stop + 1) :
    widen text span (e :: rest) = widen text ⟨span.start, e.bounds.stop⟩ rest := by
  have hgiven : given e.bounds.stop? "endIndex" = .ok e.bounds.stop := given_of_pos hpos _
  have hnot : ¬ ((e.isBreak = true ∧ text.stop < e.bounds.start) ∧ span.stop = text.stop + 1) :=
    fun h => hgoes h.1.1 h.2
  rw [widen]
  simp only [Int.not_le.2 hbehind, hgiven, decide_false, Bool.and_false, Bool.false_eq_true,
    ↓reduceIte, gt_iff_lt, Bool.and_eq_true, decide_eq_true_eq, beq_iff_eq, hnot, pure_bind]
  split
  · rfl
  · rw [Int.le_antisymm hspan (by omega)]

/-- A break behind the text ends the search as long as the end of the section is unmoved. -/
theorem widen_cons_break
    (hbreak : e.isBreak = true) (hbehind : text.stop < e.bounds.start)
    (hpos : 0 < e.bounds.start) (hstop : text.start < e.bounds.stop)
    (hspan : span.stop = text.stop + 1) :
    widen text span (e :: rest) = .ok ⟨span.start, e.bounds.start⟩ := by
  have hgiven : given e.bounds.start? "startIndex" = .ok e.bounds.start := given_of_pos hpos _
  rw [widen]
  simp [hbreak, Int.not_le.2 hstop, hbehind, hspan, hgiven]

/-! ## All elements -/

/-- The elements before the text leave the section starting at the end of the last break. -/
theorem widen_append_before (start : Int)
    (hpos : ∀ e ∈ before, 0 < e.bounds.stop) (hbefore : ∀ e ∈ before, e.bounds.stop ≤ text.start)
    (hnonempty : ∀ e ∈ before, e.bounds.start < e.bounds.stop) (htext : text.start ≤ text.stop) :
    widen text ⟨start, text.stop + 1⟩ (before ++ rest) =
      widen text
        ⟨((before.filter Element.isBreak).map (·.bounds.stop)).getLast?.getD start, text.stop + 1⟩
        rest := by
  induction before generalizing start with
  | nil => rfl
  | cons e before ih =>
    simp only [List.forall_mem_cons] at hpos hbefore hnonempty
    have hle : e.bounds.stop ≤ text.stop + 1 := by omega
    rw [List.cons_append, widen_cons_before hpos.1 hbefore.1 (by omega) hle,
      ih _ hpos.2 hbefore.2 hnonempty.2]
    cases hbreak : e.isBreak with
    | false => rw [List.filter_cons_of_neg (by simp [hbreak]), if_neg (by decide)]
    | true =>
      rw [List.filter_cons_of_pos hbreak, List.map_cons, List.getLast?_cons, if_pos rfl]
      rfl

/-- Once the end of the section is more than a unit behind the text, no break ends the search, and
the end becomes that of the last element. -/
theorem widen_behind (start stop : Int)
    (horder : Element.InOrder rest) (hbehind : ∀ e ∈ rest, stop ≤ e.bounds.start)
    (hpos : 0 < stop) (htext : text.start ≤ text.stop) (hstop : text.stop + 1 < stop) :
    widen text ⟨start, stop⟩ rest = .ok ⟨start, (rest.map (·.bounds.stop)).getLast?.getD stop⟩ := by
  induction rest generalizing stop with
  | nil => rfl
  | cons e rest ih =>
    have hrest := (List.pairwise_cons.1 horder.ascending).1
    have hnonempty := horder.nonempty e List.mem_cons_self
    have hnext := hbehind e List.mem_cons_self
    rw [widen_cons_behind (by omega) (by omega) (by simp only; omega) fun _ => by simp only; omega,
      ih e.bounds.stop (horder.sublist (List.sublist_cons_self e rest)) hrest (by omega) (by omega),
      List.map_cons, List.getLast?_cons]
    rfl

/-! ## A text in the body -/

/-- The end of the last break that ends before the text, or the place where bodies start. -/
def sectionStart (d : Document) (text : Span) : Int :=
  let passed := d.body.filter fun e => e.isBreak && e.bounds.stop ≤ text.start
  (passed.map (·.bounds.stop)).getLast?.getD 1

/-- The start of the first break that starts behind the text, or the end of the body. -/
def sectionEnd (d : Document) (text : Span) : Int :=
  let next := d.body.find? fun e => e.isBreak && text.stop < e.bounds.start
  (next.map (·.bounds.start)).getD d.bodyEnd

/-- The text stands in a paragraph of the body, or in a table of it, before the last unit. -/
structure StandsIn
    (d : Document) (text : Span) (before : List Element) (e : Element) (after : List Element) :
    Prop where
  body : d.body = before ++ e :: after
  order : Element.InOrder d.body
  nonneg : ∀ f ∈ d.body, 0 ≤ f.bounds.start
  holds_text : e.isBreak = false
  pos : 1 ≤ text.start
  starts : e.bounds.start ≤ text.start
  forwards : text.start ≤ text.stop
  stops : text.stop < e.bounds.stop

namespace StandsIn

variable (h : d.StandsIn text before e after)

include h

theorem mem_body : e ∈ d.body :=
  h.body ▸ List.mem_append_right before List.mem_cons_self

theorem order_append : Element.InOrder (before ++ e :: after) :=
  h.body ▸ h.order

theorem order_after : Element.InOrder after :=
  h.order_append.sublist
    ((List.sublist_cons_self e after).trans (List.sublist_append_right before _))

theorem stop_le_of_before {f : Element} (hf : f ∈ before) : f.bounds.stop ≤ text.start := by
  have hle := (List.pairwise_append.1 h.order_append.ascending).2.2 f hf e List.mem_cons_self
  have hstarts := h.starts
  omega

theorem le_start_of_after {f : Element} (hf : f ∈ after) : e.bounds.stop ≤ f.bounds.start :=
  (List.pairwise_cons.1 (List.pairwise_append.1 h.order_append.ascending).2.1).1 f hf

theorem start_lt_stop {f : Element} (hf : f ∈ before) : f.bounds.start < f.bounds.stop :=
  h.order_append.nonempty f (List.mem_append_left _ hf)

theorem stop_pos {f : Element} (hf : f ∈ before) : 0 < f.bounds.stop := by
  have hnonneg := h.nonneg f (h.body ▸ List.mem_append_left _ hf)
  have hnonempty := h.start_lt_stop hf
  omega

theorem sectionStart_eq :
    d.sectionStart text =
      ((before.filter Element.isBreak).map (·.bounds.stop)).getLast?.getD 1 := by
  have hbefore : before.filter (fun f => f.isBreak && f.bounds.stop ≤ text.start) =
      before.filter Element.isBreak :=
    List.filter_congr fun f hf => by simp [h.stop_le_of_before hf]
  have hbehind : (e :: after).filter (fun f => f.isBreak && f.bounds.stop ≤ text.start) = [] := by
    refine List.filter_eq_nil_iff.2 fun f hf => ?_
    rcases List.mem_cons.1 hf with rfl | hf
    · simp [h.holds_text]
    · have hle := h.le_start_of_after hf
      have hnonempty := h.order_after.nonempty f hf
      have hforwards := h.forwards
      have hstops := h.stops
      simp [show ¬ f.bounds.stop ≤ text.start by omega]
  rw [sectionStart, h.body, List.filter_append, hbefore, hbehind, List.append_nil]

theorem sectionEnd_eq :
    d.sectionEnd text = ((after.find? Element.isBreak).map (·.bounds.start)).getD d.bodyEnd := by
  have hbefore : before.find? (fun f => f.isBreak && text.stop < f.bounds.start) = none := by
    refine List.find?_eq_none.2 fun f hf => ?_
    have hle := h.stop_le_of_before hf
    have hnonempty := h.start_lt_stop hf
    have hforwards := h.forwards
    simp [show ¬ text.stop < f.bounds.start by omega]
  have hafter : after.find? (fun f => f.isBreak && text.stop < f.bounds.start) =
      after.find? Element.isBreak := by
    rw [← List.head?_filter, ← List.head?_filter]
    refine congrArg List.head? (List.filter_congr fun f hf => ?_)
    have hle := h.le_start_of_after hf
    have hstops := h.stops
    simp [show text.stop < f.bounds.start by omega]
  rw [sectionEnd, h.body, List.find?_append, hbefore, Option.none_or,
    List.find?_cons_of_neg (by simp [h.holds_text]), hafter]

theorem bodyEnd_eq : d.bodyEnd = (after.map (·.bounds.stop)).getLast?.getD e.bounds.stop := by
  rw [bodyEnd, h.body, List.getLast?_append, List.getLast?_cons, List.getLast?_map]
  cases after.getLast? with
  | none => rfl
  | some last => rfl

theorem sectionStart_le : d.sectionStart text ≤ text.start := by
  rw [h.sectionStart_eq]
  cases hlast : ((before.filter Element.isBreak).map (·.bounds.stop)).getLast? with
  | none => exact h.pos
  | some stop =>
    obtain ⟨f, hf, rfl⟩ := List.mem_map.1 (List.mem_of_getLast? hlast)
    exact h.stop_le_of_before (List.mem_filter.1 hf).1

/-- What the search finds, if it goes beyond the text, is the section as it is. -/
theorem sectionOf_eq {stop : Int} (hstop : text.stop < stop)
    (hwiden : widen text ⟨1, text.stop + 1⟩ d.body = .ok ⟨d.sectionStart text, stop⟩) :
    d.sectionOf text = .ok ⟨d.sectionStart text, stop⟩ := by
  have hstart := h.sectionStart_le
  have hforwards := h.forwards
  rw [sectionOf, hwiden]
  simp only [bind, Except.bind, show ¬ stop ≤ d.sectionStart text by omega, decide_false,
    Bool.false_and, Bool.false_eq_true, ↓reduceIte]
  rfl

/-- The elements up to the one that holds the text move the start of the section to where it should
be, and its end to the end of that element. -/
theorem widen_body :
    widen text ⟨1, text.stop + 1⟩ d.body =
      widen text ⟨d.sectionStart text, e.bounds.stop⟩ after := by
  have hpos := h.pos
  have hforwards := h.forwards
  have hstops := h.stops
  rw [h.body, widen_append_before 1 (fun f => h.stop_pos) (fun f => h.stop_le_of_before)
    (fun f => h.start_lt_stop) hforwards, ← h.sectionStart_eq]
  exact widen_cons_behind (by omega) (by omega) (by simp only; omega)
    fun hbreak => absurd hbreak (by simp [h.holds_text])

/-- A break that comes right behind the text and the last unit of its element is the end of the
section. -/
theorem sectionOf_of_next {next : Element}
    (hend : e.bounds.stop = text.stop + 1) (hnext : after.head? = some next)
    (hbreak : next.isBreak = true) :
    d.sectionOf text = .ok ⟨d.sectionStart text, d.sectionEnd text⟩ := by
  obtain ⟨rest, rfl⟩ := List.head?_eq_some_iff.1 hnext
  have hpos := h.pos
  have hforwards := h.forwards
  have hstart := h.le_start_of_after List.mem_cons_self
  have hnonempty := h.order_after.nonempty next List.mem_cons_self
  have hfound : d.sectionEnd text = next.bounds.start := by
    rw [h.sectionEnd_eq, List.find?_cons_of_pos hbreak]
    rfl
  rw [hfound]
  refine h.sectionOf_eq (by omega) ?_
  rw [h.widen_body]
  exact widen_cons_break hbreak (by omega) (by omega) (by omega) hend

/-- Without such a break, the section is taken to reach to the end of the body. -/
theorem sectionOf_of_not_next
    (hnot : e.bounds.stop = text.stop + 1 → ∀ next ∈ after.head?, next.isBreak = false) :
    d.sectionOf text = .ok ⟨d.sectionStart text, d.bodyEnd⟩ := by
  have hpos := h.pos
  have hforwards := h.forwards
  have hstops := h.stops
  have horder := h.order_after
  refine h.sectionOf_eq ?_ ?_
  · have hinside := stop_le_bodyEnd h.order h.mem_body
    omega
  · rw [h.widen_body, h.bodyEnd_eq]
    cases after with
    | nil => rfl
    | cons next rest =>
      have hrest := (List.pairwise_cons.1 horder.ascending).1
      have hstart := h.le_start_of_after List.mem_cons_self
      have hnonempty := horder.nonempty next List.mem_cons_self
      rw [widen_cons_behind (by omega) (by omega) (by simp only; omega) ?_,
        widen_behind _ _ (horder.sublist (List.sublist_cons_self next rest)) hrest (by omega)
          (by omega) (by omega), List.map_cons, List.getLast?_cons]
      · rfl
      · intro hbreak hend
        rw [hnot hend next rfl] at hbreak
        exact Bool.false_ne_true hbreak

/-- A break behind the text ends before the body does. -/
theorem bodyEnd_eq_sectionEnd_iff :
    d.bodyEnd = d.sectionEnd text ↔ ∀ f ∈ after, f.isBreak = false := by
  rw [h.sectionEnd_eq]
  cases hfind : after.find? Element.isBreak with
  | none =>
    exact iff_of_true rfl fun f hf => Bool.eq_false_iff.2 (List.find?_eq_none.1 hfind f hf)
  | some f =>
    have hmem := List.mem_of_find?_eq_some hfind
    have hnonempty := h.order_after.nonempty f hmem
    have hinside := stop_le_bodyEnd h.order (h.body ▸ List.mem_append_right before
      (List.mem_cons_of_mem e hmem) : f ∈ d.body)
    refine iff_of_false (fun heq => ?_) fun hall => ?_
    · rw [Option.map_some, Option.getD_some] at heq
      omega
    · exact absurd (List.find?_some hfind) (by simp [hall f hmem])

end StandsIn

/-- The section of a text starts where it should.  It ends where it should, or else at the end of
the body.  The end is right if and only if no break follows the element that holds the text, or one
follows right behind it, and the text reaches to the last unit of the element. -/
theorem sectionOf_right_iff (h : d.StandsIn text before e after) :
    ∃ stop, d.sectionOf text = .ok ⟨d.sectionStart text, stop⟩ ∧
      (stop = d.sectionEnd text ∨ stop = d.bodyEnd) ∧
      (stop = d.sectionEnd text ↔
        (∀ f ∈ after, f.isBreak = false) ∨
          (e.bounds.stop = text.stop + 1 ∧ ∃ next ∈ after.head?, next.isBreak = true)) := by
  by_cases hnext : e.bounds.stop = text.stop + 1 ∧ ∃ next ∈ after.head?, next.isBreak = true
  · obtain ⟨hend, next, hhead, hbreak⟩ := hnext
    exact ⟨_, h.sectionOf_of_next hend hhead hbreak, .inl rfl,
      iff_of_true rfl (.inr ⟨hend, next, hhead, hbreak⟩)⟩
  · refine ⟨d.bodyEnd, h.sectionOf_of_not_next fun hend next hhead => ?_, .inr rfl, ?_⟩
    · exact Bool.eq_false_iff.2 fun hbreak => hnext ⟨hend, next, hhead, hbreak⟩
    · rw [or_iff_left hnext]
      exact h.bodyEnd_eq_sectionEnd_iff

/-- Three sections with a line each. -/
def threeSections : Document where
  body :=
    [.sectionBreak ⟨none, some 1⟩,
      .paragraph ⟨some 1, some 4⟩ ⟨[⟨⟨some 1, some 4⟩, .run "ab\n".toList⟩], none⟩,
      .sectionBreak ⟨some 4, some 5⟩,
      .paragraph ⟨some 5, some 8⟩ ⟨[⟨⟨some 5, some 8⟩, .run "cd\n".toList⟩], none⟩,
      .sectionBreak ⟨some 8, some 9⟩,
      .paragraph ⟨some 9, some 11⟩ ⟨[⟨⟨some 9, some 11⟩, .run "e\n".toList⟩], none⟩]

theorem sectionOf_right_threeSections :
    (∃ before e after, threeSections.StandsIn ⟨5, 7⟩ before e after ∧
      e.bounds.stop = 8 ∧ ∃ next ∈ after.head?, next.isBreak = true) ∧
      threeSections.sectionOf ⟨5, 7⟩ = .ok ⟨5, 8⟩ := by
  have hstands : threeSections.StandsIn ⟨5, 7⟩ (threeSections.body.take 3)
      (.paragraph ⟨some 5, some 8⟩ ⟨[⟨⟨some 5, some 8⟩, .run "cd\n".toList⟩], none⟩)
      (threeSections.body.drop 4) :=
    ⟨rfl, by decide, by decide, rfl, by decide, by decide, by decide, by decide⟩
  have hnext : ∃ next ∈ (threeSections.body.drop 4).head?, next.isBreak = true := ⟨_, rfl, rfl⟩
  obtain ⟨stop, hsection, -, hright⟩ := sectionOf_right_iff hstands
  refine ⟨⟨_, _, _, hstands, rfl, hnext⟩, ?_⟩
  rw [hsection, hright.2 (.inr ⟨rfl, hnext⟩)]
  rfl

/-- The section of the first letter of a line goes on behind the break that follows the line. -/
theorem sectionOf_passes_break :
    threeSections.sectionOf ⟨5, 6⟩ = .ok ⟨5, 11⟩ ∧ threeSections.sectionEnd ⟨5, 6⟩ = 8 :=
  ⟨rfl, rfl⟩

end Document

end Redline
