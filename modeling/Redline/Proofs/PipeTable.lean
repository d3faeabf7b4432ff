import Redline.Markdown.Table
import Redline.Proofs.Replacing

/-!
# Tables written with pipes

A table is written row by row, each cell between pipes with a space on both sides.  Reading takes the
lines apart again, but it leaves out empty cells and lines with a cell of only dashes, colons and
spaces.  So the table that is read is the one that was written exactly when no row has such a cell,
the first row has no empty cell, and in each other row the empty cells come last.
-/

namespace Redline

/-! ## Joined parts -/

namespace Text

theorem join_singleton (sep part : Text) : join sep [part] = part := by
  simp [join, List.intercalate]

theorem join_cons (sep part : Text) {parts : List Text} (h : parts ≠ []) :
    join sep (part :: parts) = part ++ (sep ++ join sep parts) := by
  obtain ⟨next, rest, rfl⟩ := List.exists_cons_of_ne_nil h
  simp [join, List.intercalate]

theorem fields_of_not_mem {sep : Char} {t : Text} (h : sep ∉ t) : fields sep t = [t] := by
  induction t with
  | nil => rfl
  | cons c t ih =>
    simp only [List.mem_cons, not_or] at h
    have hc : (c == sep) = false := beq_false_of_ne (Ne.symm h.1)
    simp only [fields, hc, ih h.2]
    rfl

theorem fields_append_cons {sep : Char} {part : Text} (h : sep ∉ part) (t : Text) :
    fields sep (part ++ sep :: t) = part :: fields sep t := by
  induction part with
  | nil => simp [fields]
  | cons c part ih =>
    simp only [List.mem_cons, not_or] at h
    have hc : (c == sep) = false := beq_false_of_ne (Ne.symm h.1)
    simp only [List.cons_append, fields, hc, ih h.2]
    rfl

/-- Parts without the character between them are the fields of the joined text. -/
theorem fields_join
    {sep : Char} {parts : List Text} (hne : parts ≠ []) (h : ∀ part ∈ parts, sep ∉ part) :
    fields sep (join [sep] parts) = parts := by
  induction parts with
  | nil => exact absurd rfl hne
  | cons part parts ih =>
    have hpart := h part List.mem_cons_self
    cases parts with
    | nil => rw [join_singleton, fields_of_not_mem hpart]
    | cons next parts =>
      have hrest := ih (List.cons_ne_nil _ _) fun p hp => h p (List.mem_cons_of_mem _ hp)
      rw [join_cons _ _ (List.cons_ne_nil _ _), List.singleton_append, fields_append_cons hpart, hrest]

theorem not_mem_join
    {c : Char} {sep : Text} {parts : List Text} (hsep : c ∉ sep) (h : ∀ part ∈ parts, c ∉ part) :
    c ∉ join sep parts := by
  induction parts with
  | nil => exact List.not_mem_nil
  | cons part parts ih =>
    have hpart := h part List.mem_cons_self
    cases parts with
    | nil => rwa [join_singleton]
    | cons next parts =>
      have hrest := ih fun p hp => h p (List.mem_cons_of_mem _ hp)
      rw [join_cons _ _ (List.cons_ne_nil _ _), List.mem_append, List.mem_append, not_or, not_or]
      exact ⟨hpart, hsep, hrest⟩

theorem trim_cons_of_isBlank {c : Char} (h : isBlank c = true) (t : Text) :
    trim (c :: t) = trim t := by
  rw [trim, trimWhere, dropStart, List.dropWhile_cons_of_pos h]
  rfl

theorem trim_append_of_isBlank {c : Char} (h : isBlank c = true) (t : Text) :
    trim (t ++ [c]) = trim t := by
  rw [trim, trimWhere, dropStart, List.dropWhile_append]
  split
  next hnil =>
    rw [List.dropWhile_cons_of_pos h, trim, trimWhere, dropStart, List.isEmpty_iff.1 hnil]
    rfl
  next =>
    rw [dropEnd, List.reverse_append, List.reverse_singleton, List.singleton_append,
      List.dropWhile_cons_of_pos h]
    rfl

/-- A text with no blank at either end is left as it is by trimming. -/
theorem trim_of_ends
    {c d : Char} (hc : isBlank c = false) (hd : isBlank d = false) (t : Text) :
    trim (c :: (t ++ [d])) = c :: (t ++ [d]) := by
  rw [trim, trimWhere, dropStart, List.dropWhile_cons_of_neg (by simp [hc]), dropEnd,
    List.reverse_cons, List.reverse_append, List.reverse_singleton, List.singleton_append,
    List.cons_append, List.dropWhile_cons_of_neg (by simp [hd])]
  simp

end Text

namespace TableSpec

/-! ## Writing -/

/-- The line of a row. -/
def writtenRow (row : List Text) : Text :=
  "| ".toList ++ Text.join " | ".toList row ++ " |".toList

/-- The lines of a table. -/
def written (rows : List (List Text)) : Text :=
  Text.join ['\n'] (rows.map writtenRow)

/-- A table that can be written with pipes: its rows are of one width, its cells are trimmed and have
no pipe, newline or backslash, and each row has some content that is not of dashes, colons and
spaces. -/
structure Tabular (rows : List (List Text)) (width : Nat) : Prop where
  ne_nil : rows ≠ []
  rectangular : ∀ row ∈ rows, row.length = width
  trimmed : ∀ row ∈ rows, ∀ cell ∈ row, Text.trim cell = cell
  plain : ∀ row ∈ rows, ∀ cell ∈ row, '|' ∉ cell ∧ '\n' ∉ cell ∧ '\\' ∉ cell
  content : ∀ row ∈ rows, ∃ cell ∈ row, ∃ c ∈ cell, c ∉ ['-', ':', ' ']

/-- The text starts and ends with a pipe. -/
def Piped (t : Text) : Prop :=
  ∃ inner, t = '|' :: (inner ++ ['|'])

theorem Piped.trim_eq {t : Text} (h : Piped t) : Text.trim t = t := by
  obtain ⟨inner, rfl⟩ := h
  exact Text.trim_of_ends (by decide) (by decide) inner

theorem Piped.startsWith {t : Text} (h : Piped t) : Text.startsWith ['|'] t = true := by
  obtain ⟨inner, rfl⟩ := h
  exact List.isPrefixOf_iff_prefix.2 ⟨_, rfl⟩

theorem piped_writtenRow (row : List Text) : Piped (writtenRow row) :=
  ⟨' ' :: (Text.join " | ".toList row ++ [' ']), by simp [writtenRow]⟩

theorem piped_join
    {lines : List Text} (hne : lines ≠ []) (h : ∀ line ∈ lines, Piped line) :
    Piped (Text.join ['\n'] lines) := by
  induction lines with
  | nil => exact absurd rfl hne
  | cons line lines ih =>
    have hline := h line List.mem_cons_self
    cases lines with
    | nil => rwa [Text.join_singleton]
    | cons next lines =>
      obtain ⟨inner, rfl⟩ := hline
      obtain ⟨rest, hrest⟩ := ih (List.cons_ne_nil _ _) fun l hl => h l (List.mem_cons_of_mem _ hl)
      refine ⟨inner ++ "|\n|".toList ++ rest, ?_⟩
      rw [Text.join_cons _ _ (List.cons_ne_nil _ _), hrest]
      simp

/-- The cell with a space on both sides. -/
def spaced (cell : Text) : Text :=
  ' ' :: (cell ++ [' '])

theorem trim_spaced (cell : Text) : Text.trim (spaced cell) = Text.trim cell := by
  rw [spaced, Text.trim_cons_of_isBlank (by decide), Text.trim_append_of_isBlank (by decide)]

theorem join_map_spaced {row : List Text} (h : row ≠ []) :
    Text.join ['|'] (row.map spaced ++ [[]]) =
      ' ' :: (Text.join " | ".toList row ++ " |".toList) := by
  induction row with
  | nil => exact absurd rfl h
  | cons cell row ih =>
    rw [List.map_cons, List.cons_append, Text.join_cons _ _ (by simp)]
    cases row with
    | nil => simp [Text.join_singleton, spaced]
    | cons next row =>
      rw [ih (List.cons_ne_nil _ _), Text.join_cons _ cell (List.cons_ne_nil _ _)]
      simp [spaced]

/-- A line consists of its cells, what stands before the first pipe and what stands behind the last
one. -/
theorem writtenRow_eq_join {row : List Text} (h : row ≠ []) :
    writtenRow row = Text.join ['|'] ([] :: (row.map spaced ++ [[]])) := by
  rw [Text.join_cons _ _ (by simp), join_map_spaced h]
  simp [writtenRow]

/-- The cells of a row that have content. -/
def filled (row : List Text) : List Text :=
  row.filter (!·.isEmpty)

/-- The cells of a line are those of its row that are not empty. -/
theorem lineCells_writtenRow
    {row : List Text} (hne : row ≠ []) (htrimmed : ∀ cell ∈ row, Text.trim cell = cell)
    (hplain : ∀ cell ∈ row, '|' ∉ cell) :
    lineCells (writtenRow row) = filled row := by
  have hfields : Text.fields '|' (writtenRow row) = [] :: (row.map spaced ++ [[]]) := by
    rw [writtenRow_eq_join hne, Text.fields_join (List.cons_ne_nil _ _)]
    intro part hpart
    simp only [List.mem_cons, List.mem_append, List.mem_map, List.not_mem_nil, or_false] at hpart
    rcases hpart with rfl | ⟨cell, hcell, rfl⟩ | rfl
    · exact List.not_mem_nil
    · simpa [spaced] using hplain cell hcell
    · exact List.not_mem_nil
  have hcells : (row.map spaced).map Text.trim = row := by
    rw [List.map_map]
    refine (List.map_congr_left fun cell hcell => ?_).trans (List.map_id row)
    exact (trim_spaced cell).trans (htrimmed cell hcell)
  have hnil : Text.trim [] = [] := rfl
  rw [lineCells, hfields, List.map_cons, List.map_append, hcells, List.map_singleton, hnil]
  simp [filled]

/-! ## Reading -/

/-- The rows without a cell of only dashes, colons and spaces. -/
def kept (rows : List (List Text)) : List (List Text) :=
  rows.filter fun row => !(filled row).any (·.all isSeparator)

namespace Tabular

variable {rows : List (List Text)} {width : Nat}

theorem row_ne_nil (h : Tabular rows width) {row : List Text} (hrow : row ∈ rows) : row ≠ [] := by
  obtain ⟨cell, hcell, -⟩ := h.content row hrow
  exact List.ne_nil_of_mem hcell

theorem filled_ne_nil (h : Tabular rows width) {row : List Text} (hrow : row ∈ rows) :
    filled row ≠ [] := by
  obtain ⟨cell, hcell, c, hc, -⟩ := h.content row hrow
  have hmem : cell ∈ filled row :=
    List.mem_filter.2 ⟨hcell, by simpa using List.ne_nil_of_mem hc⟩
  exact List.ne_nil_of_mem hmem

theorem lineCells (h : Tabular rows width) {row : List Text} (hrow : row ∈ rows) :
    lineCells (writtenRow row) = filled row :=
  lineCells_writtenRow (h.row_ne_nil hrow) (h.trimmed row hrow) fun cell hcell =>
    (h.plain row hrow cell hcell).1

theorem not_mem_writtenRow
    (h : Tabular rows width) {row : List Text} (hrow : row ∈ rows) {c : Char}
    (hc : c = '\n' ∨ c = '\\') : c ∉ writtenRow row := by
  have hjoin : c ∉ Text.join " | ".toList row := by
    refine Text.not_mem_join ?_ fun cell hcell => ?_
    · rcases hc with rfl | rfl <;> decide
    · rcases hc with rfl | rfl
      · exact (h.plain row hrow cell hcell).2.1
      · exact (h.plain row hrow cell hcell).2.2
  rw [writtenRow, List.mem_append, List.mem_append, not_or, not_or]
  refine ⟨⟨?_, hjoin⟩, ?_⟩
  · rcases hc with rfl | rfl <;> decide
  · rcases hc with rfl | rfl <;> decide

/-- The lines of a written table are those of its rows. -/
theorem lines (h : Tabular rows width) :
    ((Text.fields '\n' (written rows)).map Text.trim).filter (!·.isEmpty) =
      rows.map writtenRow := by
  have hfields : Text.fields '\n' (written rows) = rows.map writtenRow := by
    refine Text.fields_join (by simpa using h.ne_nil) fun line hline => ?_
    obtain ⟨row, hrow, rfl⟩ := List.mem_map.1 hline
    exact h.not_mem_writtenRow hrow (.inl rfl)
  rw [hfields, List.map_map]
  have htrim : rows.map (Text.trim ∘ writtenRow) = rows.map writtenRow :=
    List.map_congr_left fun row _ => (piped_writtenRow row).trim_eq
  rw [htrim, List.filter_eq_self]
  intro line hline
  obtain ⟨row, -, rfl⟩ := List.mem_map.1 hline
  obtain ⟨inner, hinner⟩ := piped_writtenRow row
  rw [hinner]
  rfl

theorem piped (h : Tabular rows width) : Piped (written rows) := by
  refine piped_join (by simpa using h.ne_nil) fun line hline => ?_
  obtain ⟨row, -, rfl⟩ := List.mem_map.1 hline
  exact piped_writtenRow row

theorem replaceAll_eq (h : Tabular rows width) :
    Text.replaceAll "\\n".toList ['\n'] (written rows) = written rows := by
  have hnot : '\\' ∉ written rows := by
    refine Text.not_mem_join (by decide) fun line hline => ?_
    obtain ⟨row, hrow, rfl⟩ := List.mem_map.1 hline
    exact h.not_mem_writtenRow hrow (.inr rfl)
  have happend := Text.replaceAll_append hnot ['n'] ['\n'] []
  rwa [List.append_nil, Text.replaceAll_nil, List.append_nil] at happend

theorem rows_eq (h : Tabular rows width) :
    ((rows.map writtenRow).filter (!isSeparatorLine ·)).map TableSpec.lineCells =
      (kept rows).map filled := by
  rw [List.filter_map, List.map_map]
  have hkept : rows.filter ((fun line => !isSeparatorLine line) ∘ writtenRow) = kept rows := by
    refine List.filter_congr fun row hrow => ?_
    rw [Function.comp_apply, isSeparatorLine, h.lineCells hrow]
  rw [hkept]
  exact List.map_congr_left fun row hrow => h.lineCells (List.mem_filter.1 hrow).1

/-- The table that is read: the kept rows, each with its filled cells on the left, in the width of
the first one. -/
theorem readPipes?_written (h : Tabular rows width) :
    readPipes? (written rows) = (kept rows).head?.map fun first =>
      { size := { rows := (kept rows).length, columns := (filled first).length }
        cells := some ((kept rows).map fun row => fit (filled first).length (filled row)) } := by
  have hall : (rows.map writtenRow).all (Text.startsWith ['|']) = true := by
    refine List.all_eq_true.2 fun line hline => ?_
    obtain ⟨row, -, rfl⟩ := List.mem_map.1 hline
    exact (piped_writtenRow row).startsWith
  have hfilled : ((kept rows).map filled).any (·.isEmpty) = false := by
    rw [List.any_eq_false]
    intro cells hcells
    obtain ⟨row, hrow, rfl⟩ := List.mem_map.1 hcells
    simpa using h.filled_ne_nil (List.mem_filter.1 hrow).1
  simp only [readPipes?, h.replaceAll_eq, h.piped.trim_eq, h.lines, h.piped.startsWith, hall,
    h.rows_eq, hfilled]
  cases kept rows with
  | nil => rfl
  | cons first rest => simp

end Tabular

/-! ## Rows that come back -/

theorem mem_filled {row : List Text} {cell : Text} : cell ∈ filled row ↔ cell ∈ row ∧ cell ≠ [] := by
  simp [filled]

theorem fit_of_length_le {width : Nat} {cells : List Text} (h : cells.length ≤ width) :
    fit width cells = cells ++ List.replicate (width - cells.length) [] := by
  rw [fit, List.take_append, List.take_of_length_le h, List.take_replicate]
  congr 2
  omega

/-- The filled cells, followed by empty ones, make up the row exactly when its empty cells come
last. -/
theorem fit_filled_eq_iff {row : List Text} :
    fit row.length (filled row) = row ↔ row.Pairwise fun left right => left = [] → right = [] := by
  have hle : (filled row).length ≤ row.length := List.length_filter_le _ _
  rw [fit_of_length_le hle]
  clear hle
  induction row with
  | nil => simp [filled]
  | cons cell row ih =>
    rw [List.pairwise_cons]
    by_cases hcell : cell = []
    · subst hcell
      have hfilled : filled ([] :: row) = filled row := rfl
      rw [hfilled]
      constructor
      · intro h
        -- A filled cell would come first.
        have hnone : filled row = [] := by
          cases hcells : filled row with
          | nil => rfl
          | cons first rest =>
            rw [hcells] at h
            have hfirst : first ∈ filled row := hcells ▸ List.mem_cons_self
            exact absurd (List.cons.inj h).1 (mem_filled.1 hfirst).2
        have hempty : ∀ other ∈ row, other = [] := by
          intro other hother
          by_cases hnil : other = []
          · exact hnil
          · have hmem := mem_filled.2 ⟨hother, hnil⟩
            rw [hnone] at hmem
            exact absurd hmem List.not_mem_nil
        refine ⟨fun other hother _ => hempty other hother, ?_⟩
        exact List.pairwise_of_forall_mem_list fun _ _ other hother _ => hempty other hother
      · rintro ⟨hempty, -⟩
        have hnone : filled row = [] := by
          refine List.eq_nil_iff_forall_not_mem.2 fun other hother => ?_
          obtain ⟨hmem, hne⟩ := mem_filled.1 hother
          exact hne (hempty other hmem rfl)
        have hrow : row = List.replicate row.length [] :=
          List.eq_replicate_iff.2 ⟨rfl, fun other hother => hempty other hother rfl⟩
        rw [hnone, List.length_cons, List.length_nil, Nat.sub_zero, List.nil_append,
          List.replicate_succ, ← hrow]
    · have hfilled : filled (cell :: row) = cell :: filled row :=
        List.filter_cons_of_pos (by simpa using hcell)
      rw [hfilled, List.length_cons, List.length_cons, Nat.add_sub_add_right, List.cons_append,
        List.cons_inj_right]
      exact ih.trans (and_iff_right fun other _ hnil => absurd hnil hcell).symm

theorem isSeparator_iff {c : Char} : isSeparator c = true ↔ c ∈ ['-', ':', ' '] := by
  simp [isSeparator, or_assoc]

theorem kept_eq_self_iff {rows : List (List Text)} :
    kept rows = rows ↔
      ∀ row ∈ rows, ∀ cell ∈ row, cell ≠ [] → ∃ c ∈ cell, c ∉ ['-', ':', ' '] := by
  rw [kept, List.filter_eq_self]
  refine forall_congr' fun row => imp_congr_right fun hrow => ?_
  rw [Bool.not_eq_true', List.any_eq_false]
  constructor
  · intro hnone cell hcell hne
    have hall := hnone cell (mem_filled.2 ⟨hcell, hne⟩)
    rw [Bool.not_eq_true, List.all_eq_false] at hall
    obtain ⟨c, hc, hnot⟩ := hall
    exact ⟨c, hc, mt isSeparator_iff.2 hnot⟩
  · intro hcontent cell hcell hall
    obtain ⟨hmem, hne⟩ := mem_filled.1 hcell
    obtain ⟨c, hc, hnot⟩ := hcontent cell hmem hne
    exact hnot (isSeparator_iff.1 (List.all_eq_true.1 hall c hc))

theorem filled_eq_self_iff {row : List Text} : filled row = row ↔ ∀ cell ∈ row, cell ≠ [] := by
  simp [filled]

/-- A table is read as it was written exactly when it has no cell of only dashes, colons and spaces,
no empty cell in its first row, and in each row the empty cells come last. -/
theorem readPipes?_written_iff
    {rows : List (List Text)} {width : Nat} (h : Tabular rows width) :
    readPipes? (written rows) =
        some { size := { rows := rows.length, columns := width }, cells := some rows } ↔
      (∀ row ∈ rows, ∀ cell ∈ row, cell ≠ [] → ∃ c ∈ cell, c ∉ ['-', ':', ' ']) ∧
        (∀ first ∈ rows.head?, ∀ cell ∈ first, cell ≠ []) ∧
          ∀ row ∈ rows, row.Pairwise fun left right => left = [] → right = [] := by
  obtain ⟨first, rest, hfirst⟩ := List.exists_cons_of_ne_nil h.ne_nil
  have hhead : rows.head? = some first := by rw [hfirst]; rfl
  have hlength : first.length = width := h.rectangular first (hfirst ▸ List.mem_cons_self)
  rw [h.readPipes?_written, ← kept_eq_self_iff, hhead]
  constructor
  · intro hread
    obtain ⟨row, hrow, hspec⟩ := Option.map_eq_some_iff.1 hread
    simp only [TableSpec.mk.injEq, TableSize.mk.injEq, Option.some.injEq, and_true] at hspec
    obtain ⟨⟨hrows, hcolumns⟩, hcells⟩ := hspec
    have hkept : kept rows = rows := List.filter_eq_self.2 (List.length_filter_eq_length_iff.1 hrows)
    rw [hkept] at hrow hcells
    obtain rfl := Option.some.inj (hhead.symm.trans hrow)
    refine ⟨hkept, ?_, fun row hrow => ?_⟩
    · rintro _ ⟨⟩
      rw [← filled_eq_self_iff]
      exact List.filter_eq_self.2 (List.length_filter_eq_length_iff.1 (hcolumns.trans hlength.symm))
    · rw [← fit_filled_eq_iff, h.rectangular row hrow, ← hcolumns]
      exact List.map_inj_left.1 (hcells.trans (List.map_id _).symm) row hrow
  · rintro ⟨hkept, hfull, hrows⟩
    have hfilled : filled first = first := filled_eq_self_iff.2 (hfull first rfl)
    have hcells : rows.map (fun row => fit width (filled row)) = rows := by
      refine (List.map_congr_left fun row hrow => ?_).trans (List.map_id rows)
      rw [← h.rectangular row hrow]
      exact fit_filled_eq_iff.2 (hrows row hrow)
    rw [hkept, hhead, Option.map_some, hfilled, hlength, hcells]

/-- Of two rows, the second with its last cell empty, none is changed. -/
theorem readPipes?_written_trailingEmpty :
    Tabular [[['a'], ['b']], [['c'], []]] 2 ∧
      readPipes? (written [[['a'], ['b']], [['c'], []]]) =
        some { size := { rows := 2, columns := 2 }, cells := some [[['a'], ['b']], [['c'], []]] } := by
  have htabular : Tabular [[['a'], ['b']], [['c'], []]] 2 :=
    { ne_nil := by simp
      rectangular := by simp
      trimmed := by decide
      plain := by simp
      content := by simp }
  exact ⟨htabular, (readPipes?_written_iff htabular).2 ⟨by simp, by simp, by simp⟩⟩

/-- An empty cell in the corner is lost: the header moves to the left, and the table is one column
wide. -/
theorem readPipes?_written_emptyCorner :
    Tabular [[[], ['b']], [['c'], ['d']]] 2 ∧
      readPipes? (written [[[], ['b']], [['c'], ['d']]]) =
        some { size := { rows := 2, columns := 1 }, cells := some [[['b']], [['c']]] } := by
  refine ⟨?_, by decide⟩
  exact
    { ne_nil := by simp
      rectangular := by simp
      trimmed := by decide
      plain := by simp
      content := by simp }

end TableSpec

end Redline
