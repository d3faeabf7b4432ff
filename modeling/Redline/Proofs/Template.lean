import Redline.Proofs.Replacing
import Redline.Proofs.Run
import Redline.Template

/-!
# The pieces of a template

What the pieces of a template are, by the text at its start: a doubled dollar, a reference, or a
character that stands for itself.  Written out as text, a template keeps all of its
characters but one of each doubled dollar.  References survive in any part of a template that has
all of their characters, so a part of a template expands whenever the template does.
-/

namespace Redline.Template

/-! ## Pieces by the start of a template -/

@[simp]
theorem pieces_nil : pieces [] = [] := by
  rw [pieces]

@[simp]
theorem pieces_dollar_dollar (rest : Text) :
    pieces ('$' :: '$' :: rest) = .char '$' :: pieces rest := by
  rw [pieces]

/-- The text is the number of a reference, its closing brace, and what follows. -/
structure Refers (rest digits tail : Text) : Prop where
  eq : rest = digits ++ '\x7d' :: tail
  decimal : ∀ d ∈ digits, isDecimal d = true
  ne_nil : digits ≠ []

theorem isDecimal_closing : isDecimal '\x7d' = false := by
  decide

theorem Refers.takeWhile {rest digits tail : Text} (h : Refers rest digits tail) :
    rest.takeWhile isDecimal = digits := by
  rw [h.eq, List.takeWhile_append_of_pos h.decimal, List.takeWhile_cons,
    if_neg (by simp [isDecimal_closing]), List.append_nil]

theorem Refers.dropWhile {rest digits tail : Text} (h : Refers rest digits tail) :
    rest.dropWhile isDecimal = '\x7d' :: tail := by
  rw [h.eq, List.dropWhile_append_of_pos h.decimal, List.dropWhile_cons,
    if_neg (by simp [isDecimal_closing])]

theorem Refers.pieces {rest digits tail : Text} (h : Refers rest digits tail) :
    pieces ('$' :: '\x7b' :: rest) = .group digits :: pieces tail := by
  rw [Template.pieces]
  split
  next tail' htail =>
    obtain ⟨-, rfl⟩ := List.cons.inj (h.dropWhile.symm.trans htail)
    rw [h.takeWhile, if_neg (by simpa using h.ne_nil)]
  next hother => exact absurd h.dropWhile (hother tail)

/-- The character is a piece of its own in front of the rest: it starts neither a doubled dollar nor
a reference. -/
def StandsAlone (c : Char) (rest : Text) : Prop :=
  c = '$' → ∀ d tail, rest = d :: tail →
    d ≠ '$' ∧ (d = '\x7b' → ∀ digits tail', ¬ Refers tail digits tail')

theorem standsAlone_of_ne {c : Char} (h : c ≠ '$') (rest : Text) : StandsAlone c rest :=
  fun hc => absurd hc h

theorem StandsAlone.pieces
    {c : Char} {rest : Text} (h : StandsAlone c rest) :
    pieces (c :: rest) = .char c :: pieces rest := by
  by_cases hbrace : c = '$' ∧ ∃ tail, rest = '\x7b' :: tail
  · obtain ⟨rfl, tail, rfl⟩ := hbrace
    have hnot := (h rfl '\x7b' tail rfl).2 rfl
    rw [Template.pieces]
    split
    next tail' htail =>
      split
      next => rfl
      next hne =>
        refine absurd ⟨?_, List.all_eq_true.1 List.all_takeWhile, by simpa using hne⟩
          (hnot (tail.takeWhile isDecimal) tail')
        rw [← htail, List.takeWhile_append_dropWhile]
    next => rfl
  · rw [Template.pieces]
    · intro tail hc htail
      exact absurd rfl (h hc '$' tail htail).1
    · exact fun tail hc htail => hbrace ⟨hc, tail, htail⟩

/-- What holds of a template by its first piece, and of what follows it, holds of every template. -/
theorem induction_by_piece
    {motive : Text → Prop} (nil : motive [])
    (dollar : ∀ rest, motive rest → motive ('$' :: '$' :: rest))
    (reference : ∀ rest digits tail, Refers rest digits tail → motive tail →
      motive ('$' :: '\x7b' :: rest))
    (char : ∀ c rest, StandsAlone c rest → motive rest → motive (c :: rest))
    (t : Text) : motive t := by
  induction t using pieces.induct with
  | case1 => exact nil
  | case2 rest ih => exact dollar rest ih
  | case3 rest tail hdrop hempty ih =>
    refine char '$' _ (fun _ d _ h => ?_) ih
    obtain ⟨rfl, rfl⟩ := List.cons.inj h
    refine ⟨by decide, fun _ digits tail' h => h.ne_nil ?_⟩
    rw [← h.takeWhile, List.isEmpty_iff.1 hempty]
  | case4 rest tail hdrop hne ih =>
    refine reference rest (rest.takeWhile isDecimal) tail ⟨?_, ?_, by simpa using hne⟩ ih
    · rw [← hdrop, List.takeWhile_append_dropWhile]
    · exact List.all_eq_true.1 List.all_takeWhile
  | case5 rest hdrop ih =>
    refine char '$' _ (fun _ d _ h => ?_) ih
    obtain ⟨rfl, rfl⟩ := List.cons.inj h
    exact ⟨by decide, fun _ digits tail h => hdrop tail h.dropWhile⟩
  | case6 c rest hdollar hbrace ih =>
    refine char c rest (fun hc d tail h => ⟨?_, ?_⟩) ih
    · rintro rfl
      exact hdollar tail hc h
    · rintro rfl
      exact absurd h (hbrace tail hc)

/-! ## Templates as text -/

theorem literal_dollar_dollar (rest : Text) :
    literal ('$' :: '$' :: rest) = '$' :: literal rest :=
  Text.replaceAll_of_startsWith (List.cons_ne_nil _ _) rest rfl

theorem StandsAlone.literal
    {c : Char} {rest : Text} (h : StandsAlone c rest) :
    literal (c :: rest) = c :: literal rest := by
  apply Text.replaceAll_of_not_startsWith
  by_cases hc : c = '$'
  · subst hc
    cases rest with
    | nil => rfl
    | cons d tail =>
      have hd := (h rfl d tail rfl).1
      exact Text.startsWith_cons_of_ne (Ne.symm hd) [] tail
  · exact Text.startsWith_cons_of_ne (Ne.symm hc) ['$'] rest

/-! ## Parts of a template -/

theorem Refers.of_take
    {rest digits tail : Text} {n : Nat} (h : Refers (rest.take n) digits tail) :
    Refers rest digits (tail ++ rest.drop n) := by
  refine ⟨?_, h.decimal, h.ne_nil⟩
  calc
    rest = rest.take n ++ rest.drop n := (List.take_append_drop n rest).symm
    _ = digits ++ '\x7d' :: (tail ++ rest.drop n) := by
      rw [h.eq]
      simp

theorem StandsAlone.take
    {c : Char} {rest : Text} (h : StandsAlone c rest) (n : Nat) : StandsAlone c (rest.take n) := by
  intro hc d tail htail
  match n, rest with
  | 0, _ => simp at htail
  | _ + 1, [] => simp at htail
  | n + 1, e :: rest =>
    obtain ⟨rfl, rfl⟩ := List.cons.inj htail
    obtain ⟨hdollar, hbrace⟩ := h hc e rest rfl
    exact ⟨hdollar, fun he digits tail' hrefers => hbrace he _ _ hrefers.of_take⟩

theorem Refers.take
    {rest digits tail : Text} (h : Refers rest digits tail) (n : Nat) :
    Refers (rest.take (digits.length + 1 + n)) digits (tail.take n) := by
  refine ⟨?_, h.decimal, h.ne_nil⟩
  rw [h.eq, Nat.add_assoc, List.take_length_add_append, Nat.add_comm 1 n, List.take_succ_cons]

/-- Text without dollars is made of pieces of one character. -/
theorem pieces_append {s : Text} (h : '$' ∉ s) (t : Text) :
    pieces (s ++ t) = s.map .char ++ pieces t := by
  induction s with
  | nil => rfl
  | cons c s ih =>
    simp only [List.mem_cons, not_or] at h
    rw [List.cons_append, (standsAlone_of_ne (Ne.symm h.1) _).pieces, ih h.2, List.map_cons,
      List.cons_append]

theorem group_not_mem_pieces
    {t : Text} (h : '$' ∉ t) (digits : Text) : Piece.group digits ∉ pieces t := by
  rw [← List.append_nil t, pieces_append h, pieces_nil]
  simp

/-- There is no reference before its closing brace. -/
theorem group_not_mem_pieces_cons
    {rest : Text} (hdollar : '$' ∉ rest) (hclosing : '\x7d' ∉ rest) (digits : Text) :
    Piece.group digits ∉ pieces ('$' :: rest) := by
  have halone : StandsAlone '$' rest := by
    rintro - d tail rfl
    refine ⟨fun hd => hdollar (hd ▸ List.mem_cons_self), fun _ number tail' hrefers => ?_⟩
    apply hclosing
    rw [hrefers.eq]
    simp
  rw [halone.pieces]
  simpa using group_not_mem_pieces hdollar digits

/-- A reference in a part of a template is one in the whole template. -/
theorem group_mem_pieces_of_take
    {t digits : Text} {n : Nat} (h : Piece.group digits ∈ pieces (t.take n)) :
    Piece.group digits ∈ pieces t := by
  induction t using induction_by_piece generalizing n with
  | nil => simp at h
  | dollar rest ih =>
    match n with
    | 0 => simp at h
    | 1 => exact absurd h (group_not_mem_pieces_cons (by simp) (by simp) digits)
    | n + 2 =>
      simp only [List.take_succ_cons, pieces_dollar_dollar, List.mem_cons, reduceCtorEq,
        false_or] at h ⊢
      exact ih h
  | reference rest number tail hrefers ih =>
    match n with
    | 0 => simp at h
    | 1 => exact absurd h (group_not_mem_pieces_cons (by simp) (by simp) digits)
    | n + 2 =>
      simp only [List.take_succ_cons] at h
      by_cases hn : n ≤ number.length
      · -- The part ends within the reference, which leaves an opening brace and digits.
        have hcut : rest.take n = number.take n := by
          rw [hrefers.eq, List.take_append_of_le_length hn]
        have hother : ∀ c, isDecimal c = false → c ∉ rest.take n := by
          intro c hc hmem
          rw [hcut] at hmem
          have := hrefers.decimal c (List.mem_of_mem_take hmem)
          rw [hc] at this
          exact Bool.false_ne_true this
        refine absurd h (group_not_mem_pieces_cons ?_ ?_ digits)
        · simpa using hother '$' (by decide)
        · simpa using hother '\x7d' isDecimal_closing
      · obtain ⟨k, rfl⟩ := Nat.exists_eq_add_of_lt (Nat.lt_of_not_le hn)
        rw [show number.length + k + 1 = number.length + 1 + k by omega,
          (hrefers.take k).pieces] at h
        rw [hrefers.pieces]
        rcases List.mem_cons.1 h with h | h
        · exact List.mem_cons.2 (.inl h)
        · exact List.mem_cons.2 (.inr (ih h))
  | char c rest halone ih =>
    match n with
    | 0 => simp at h
    | n + 1 =>
      rw [List.take_succ_cons, (halone.take n).pieces] at h
      rw [halone.pieces]
      simp only [List.mem_cons, reduceCtorEq, false_or] at h ⊢
      exact ih h

/-- A part of a template expands against every match that the template expands against. -/
theorem exists_expand_take
    {m : Match} {t text : Text} (h : expand (some m) t = .ok text) (n : Nat) :
    ∃ part, expand (some m) (t.take n) = .ok part := by
  obtain ⟨texts, htexts, -⟩ := exists_of_bind_eq_ok h
  have hpieces : ∀ p ∈ pieces (t.take n), ∃ text, p.expand (some m) = .ok text := by
    intro p hp
    cases p with
    | char c => exact ⟨[c], rfl⟩
    | group digits =>
      have hmem := group_mem_pieces_of_take hp
      obtain ⟨text, -, htext⟩ :=
        exists_of_mem_forall₂ (forall₂_of_mapM_eq_ok htexts).flip hmem
      exact ⟨text, htext⟩
  obtain ⟨parts, hparts⟩ := exists_mapM_eq_ok hpieces
  refine ⟨parts.flatten, ?_⟩
  rw [expand, hparts]
  rfl

end Redline.Template
