import Redline.Proofs.FlaggedPattern
import Redline.Proofs.Quoting

/-!
# Blocks behind the flags

A block in braces may stand behind the flags of a substitution.  The flags that concern the pattern
and the number of the match are looked for before the brace, but every match is meant as soon as its
letter stands anywhere in the last field.  This module compares a substitution with such a block to
the one without it: they are read alike up to that letter, and are the same exactly when the block
does not bring it in.
-/

namespace Redline

/-! ## The last field -/

namespace Delimited

variable {delimiter : Char} {t : Text}

/-- The second list of fields is the first one with a text at the end of the last field. -/
def GrowsBy (t : Text) (fields fields' : List Text) : Prop :=
  ∃ front last, fields = front ++ [last] ∧ fields' = front ++ [last ++ t]

theorem GrowsBy.cons {fields fields' : List Text} (h : GrowsBy t fields fields') (field : Text) :
    GrowsBy t (field :: fields) (field :: fields') := by
  obtain ⟨front, last, rfl, rfl⟩ := h
  exact ⟨field :: front, last, rfl, rfl⟩

theorem GrowsBy.prepend {fields fields' : List Text} (h : GrowsBy t fields fields') (c : Char) :
    GrowsBy t (prepend c fields) (prepend c fields') := by
  obtain ⟨front, last, rfl, rfl⟩ := h
  cases front with
  | nil => exact ⟨[], c :: last, rfl, rfl⟩
  | cons field front => exact ⟨(c :: field) :: front, last, rfl, rfl⟩

theorem split_of_not_mem (h : delimiter ∉ t) : split delimiter t = [t] := by
  induction t with
  | nil => rfl
  | cons c t ih =>
    rw [List.mem_cons, not_or] at h
    have hescape : c = '\\' → t.head? ≠ some delimiter := fun _ hhead =>
      h.2 (List.mem_of_head? hhead)
    rw [split_cons (Ne.symm h.1) hescape, ih h.2]
    rfl

/-- A text without delimiters goes to the end of the last field, also behind a backslash. -/
theorem growsBy_split_append (h : delimiter ∉ t) (rest : Text) :
    GrowsBy t (split delimiter rest) (split delimiter (rest ++ t)) := by
  fun_induction split delimiter rest with
  | case1 => exact ⟨[], [], rfl, split_of_not_mem h⟩
  | case2 c hc =>
    have hfields : split delimiter (c :: t) = [[], t] := by
      cases t with
      | nil => rw [split, if_pos hc]
      | cons e t =>
        have he : (e == delimiter) = false :=
          beq_false_of_ne fun he => h (he ▸ List.mem_cons_self)
        rw [split, he, Bool.and_false, if_neg Bool.false_ne_true, if_pos hc, split_of_not_mem h]
    exact ⟨[[]], [], rfl, hfields⟩
  | case3 c hc =>
    have hescape : c = '\\' → t.head? ≠ some delimiter := fun _ hhead =>
      h (List.mem_of_head? hhead)
    refine ⟨[], [c], rfl, ?_⟩
    rw [List.singleton_append, split_cons (by simpa using hc) hescape, split_of_not_mem h]
    rfl
  | case4 c e rest hescaped ih =>
    rw [List.cons_append, List.cons_append, split, if_pos hescaped]
    exact ih.prepend delimiter
  | case5 c e rest hescaped hc ih =>
    rw [List.cons_append, List.cons_append, split, if_neg hescaped, if_pos hc]
    exact ih.cons []
  | case6 c e rest hescaped hc ih =>
    rw [List.cons_append, List.cons_append, split, if_neg hescaped, if_neg hc]
    exact ih.prepend c

theorem length_prepend (c : Char) (fields : List Text) :
    (prepend c fields).length = max 1 fields.length := by
  cases fields with
  | nil => rfl
  | cons field fields => simp [prepend]

theorem length_split_le (delimiter : Char) (rest : Text) :
    (split delimiter rest).length ≤ rest.length + 1 := by
  fun_induction split delimiter rest with
  | case1 => simp
  | case2 c hc => simp
  | case3 c hc => simp
  | case4 c e rest hescaped ih =>
    rw [length_prepend, List.length_cons, List.length_cons]
    omega
  | case5 c e rest hescaped hc ih =>
    rw [List.length_cons, List.length_cons]
    omega
  | case6 c e rest hescaped hc ih =>
    rw [length_prepend, List.length_cons]
    omega

/-! ## Flags before a block -/

theorem plainFlags_append_block (flags block : Text) :
    plainFlags (flags ++ '\x7b' :: block) = plainFlags flags :=
  takeWhile_append_cons_of_neg flags block (by decide)

theorem withFlags_append_block (pattern flags block : Text) :
    withFlags pattern (flags ++ '\x7b' :: block) = withFlags pattern flags := by
  rw [withFlags, plainFlags_append_block]
  rfl

theorem nth_append_block (flags block : Text) : nth (flags ++ '\x7b' :: block) = nth flags := by
  rw [nth, plainFlags_append_block]
  rfl

end Delimited

/-! ## Substitutions with a block -/

namespace Expression

/-- The expression from another text, with or without every match. -/
def withRaw (e : Expression) (isGlobal : Bool) (raw : Text) : Expression :=
  { e with isGlobal, raw }

/-- The letter for every match has no part in the reading of a replacement. -/
theorem addReplacement_withRaw
    {e : Expression} (h : e.blocks = []) (isGlobal : Bool) (raw replacement : Text) :
    addReplacement (e.withRaw isGlobal raw) replacement =
      (addReplacement e replacement).map (·.withRaw isGlobal raw) := by
  rw [addReplacement_eq_map h, addReplacement_eq_map (e := e.withRaw isGlobal raw) h]
  cases addReplacement { pattern := [], raw := [] } replacement with
  | error refusal => rfl
  | ok plain => rfl

theorem isGlobal_of_addReplacement
    {e e' : Expression} {replacement : Text} (h : e.blocks = [])
    (he' : addReplacement e replacement = .ok e') : e'.isGlobal = e.isGlobal := by
  rw [addReplacement_eq_map h] at he'
  cases hplain : addReplacement { pattern := [], raw := [] } replacement with
  | error refusal =>
    rw [hplain] at he'
    cases he'
  | ok plain =>
    rw [hplain] at he'
    cases he'
    rfl

theorem isGlobal_of_readSubstitute [CharNames]
    {pattern replacement flags raw : Text} {e : Expression}
    (h : readSubstitute [pattern, replacement, flags] raw = .ok e) :
    e.isGlobal = flags.contains 'g' := by
  obtain ⟨a, -, h⟩ := exists_of_bind_eq_ok h
  obtain ⟨e', he', h⟩ := exists_of_bind_eq_ok h
  obtain ⟨n, -, h⟩ := exists_of_bind_eq_ok h
  cases h
  exact isGlobal_of_addReplacement rfl he'

/-- A block behind the flags changes nothing but the letter for every match. -/
theorem readSubstitute_append_block [CharNames]
    (pattern replacement flags block raw raw' : Text) :
    readSubstitute [pattern, replacement, flags ++ '\x7b' :: block] raw' =
      (readSubstitute [pattern, replacement, flags] raw).map
        (·.withRaw (flags.contains 'g' || block.contains 'g') raw') := by
  have hglobal : (flags ++ '\x7b' :: block).contains 'g' =
      (flags.contains 'g' || block.contains 'g') := by
    simp
  simp only [readSubstitute, fieldAt, List.getElem?_cons_zero, Option.getD_some,
    Delimited.withFlags_append_block, Delimited.nth_append_block, hglobal]
  cases aim (Delimited.withFlags pattern flags) (Template.convert replacement) with
  | error refusal => rfl
  | ok a =>
    have hadd := addReplacement_withRaw
      (e := { pattern := a.pattern, target := a.target, isGlobal := flags.contains 'g', raw })
      rfl (flags.contains 'g' || block.contains 'g') raw' a.replacement
    simp only [withRaw] at hadd
    simp only [bind, Except.bind, hadd]
    generalize addReplacement _ a.replacement = plain
    rcases plain with refusal | e
    · rfl
    · cases Refusal.ofNumber (ε := ParseError) (Delimited.nth flags) with
      | error refusal => rfl
      | ok n => rfl

/-- The fields of a substitution with a block behind its last field. -/
theorem split_append_block
    {delimiter : Char} {rest pattern replacement flags block : Text}
    (hfields : Delimited.split delimiter rest = [pattern, replacement, flags])
    (hblock : delimiter ∉ '\x7b' :: block) :
    Delimited.split delimiter (rest ++ '\x7b' :: block) =
      [pattern, replacement, flags ++ '\x7b' :: block] := by
  obtain ⟨front, last, hfront, hgrown⟩ := Delimited.growsBy_split_append hblock rest
  have hends : [pattern, replacement] ++ [flags] = front ++ [last] := hfields.symm.trans hfront
  obtain ⟨rfl, hlast⟩ := List.append_inj' hends rfl
  cases hlast
  exact hgrown

/-- A text with three fields is read as a substitution. -/
theorem read_of_fields [CharNames]
    {delimiter : Char} {rest pattern replacement flags : Text}
    (hfields : Delimited.split delimiter rest = [pattern, replacement, flags]) :
    read ('s' :: delimiter :: rest) =
      readSubstitute [pattern, replacement, flags] ('s' :: delimiter :: rest) := by
  have hlength := Delimited.length_split_le delimiter rest
  rw [hfields, List.length_cons, List.length_cons, List.length_singleton] at hlength
  have hhas : HasFields ('s' :: delimiter :: rest) pattern replacement flags :=
    ⟨delimiter, rest, [flags], rfl, by omega, hfields, rfl⟩
  obtain ⟨more, rfl, hread⟩ := read_of_hasFields hhas
  exact hread

/-- A block behind the flags of a substitution is left out of account, except that the letter for
every match counts there too.  With the block the command is refused for the same reason as without
it, or both are read, with the same pattern and the same number; they agree on every match exactly
when the letter stands in the flags already or does not stand in the block. -/
theorem block_ignored_iff [CharNames]
    {delimiter : Char} {rest pattern replacement flags block : Text}
    (hfields : Delimited.split delimiter rest = [pattern, replacement, flags])
    (hblock : delimiter ∉ '\x7b' :: block) :
    (∃ refusal, read ('s' :: delimiter :: rest) = .error refusal ∧
        read ('s' :: delimiter :: (rest ++ '\x7b' :: block)) = .error refusal) ∨
      ∃ e e', read ('s' :: delimiter :: rest) = .ok e ∧
        read ('s' :: delimiter :: (rest ++ '\x7b' :: block)) = .ok e' ∧
        e'.pattern = e.pattern ∧ e'.nth = e.nth ∧
        (e'.isGlobal = e.isGlobal ↔ ('g' ∈ block → 'g' ∈ flags)) := by
  rw [read_of_fields hfields, read_of_fields (split_append_block hfields hblock),
    readSubstitute_append_block pattern replacement flags block ('s' :: delimiter :: rest)]
  cases hread : readSubstitute [pattern, replacement, flags] ('s' :: delimiter :: rest) with
  | error refusal => exact .inl ⟨refusal, rfl, rfl⟩
  | ok e =>
    refine .inr ⟨e, _, rfl, rfl, rfl, rfl, ?_⟩
    rw [isGlobal_of_readSubstitute hread]
    simp [withRaw]

attribute [local instance] CharNames.none

/-- A size behind the flags leaves the number of the match and the pattern as they are. -/
theorem block_ignored_size :
    Delimited.split '/' "a/b/2i".toList = [['a'], ['b'], "2i".toList] ∧
      '/' ∉ "\x7bw=5m9\x7d".toList ∧
      ∃ e e', read "s/a/b/2i".toList = .ok e ∧ read "s/a/b/2i\x7bw=5m9\x7d".toList = .ok e' ∧
        e'.pattern = e.pattern ∧ e'.nth = e.nth ∧ e'.isGlobal = e.isGlobal := by
  have hfields : Delimited.split '/' "a/b/2i".toList = [['a'], ['b'], "2i".toList] := by decide
  have hblock : '/' ∉ "\x7bw=5m9\x7d".toList := by decide
  refine ⟨hfields, hblock, ?_⟩
  rcases block_ignored_iff hfields hblock with ⟨refusal, hread, -⟩ | ⟨e, e', hread, hread', hpattern,
    hnth, hglobal⟩
  · cases hread
  · exact ⟨e, e', hread, hread', hpattern, hnth, hglobal.2 fun h => absurd h (by decide)⟩

/-- A background behind the flags makes the command replace every match. -/
theorem block_replaces_every_match :
    ∃ e e', read "s/a/b/".toList = .ok e ∧ read "s/a/b/\x7bbg=red\x7d".toList = .ok e' ∧
      e.isGlobal = false ∧ e'.isGlobal = true :=
  ⟨_, _, rfl, rfl, rfl, rfl⟩

end Expression

end Redline
