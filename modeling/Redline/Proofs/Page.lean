import Redline.Document.Basic
import Redline.Proofs.Body

/-!
# Pages

A page is what a document shows, without positions and without the cuts between runs: characters,
objects, and tables whose cells are pages again.  Every page has its index units, and a document
displays a page when its tree holds the same atoms and gives them their places among the units.

Tables are numbered in the order in which they start.  The number of a table tells where it stands
in the units, and a page stays as it is around a table whatever rows the table has.
-/

namespace Redline

/-- What stands on a page.  A table is given by its rows of cells. -/
inductive Atom where
  | char (c : Char)
  | object (name : Text)
  | table (rows : List (List (List Atom)))

/-- Atoms in order. -/
abbrev Page := List Atom

/-- The rows of a table; a row is a list of cells. -/
abbrev Grid := List (List Page)

namespace Atom

mutual

/-- The index units of an atom.  A table has a mark at its start and its end, and one at the start
of each row and of each cell. -/
def units : Atom → Body
  | .char c => Body.ofChar c
  | .object name => [.object name]
  | .table rows => .mark .table :: (unitsOfRows rows ++ [.mark .tableEnd])

def unitsOf : List Atom → Body
  | [] => []
  | a :: rest => units a ++ unitsOf rest

def unitsOfRow : List (List Atom) → Body
  | [] => []
  | cell :: cells => .mark .cell :: (unitsOf cell ++ unitsOfRow cells)

def unitsOfRows : List (List (List Atom)) → Body
  | [] => []
  | row :: rows => .mark .row :: (unitsOfRow row ++ unitsOfRows rows)

end

mutual

/-- The tables of an atom: the table that it is, and those in its cells. -/
def tables : Atom → List Grid
  | .table rows => rows :: tablesOfRows rows
  | .char _ => []
  | .object _ => []

def tablesOf : List Atom → List Grid
  | [] => []
  | a :: rest => tables a ++ tablesOf rest

def tablesOfRow : List (List Atom) → List Grid
  | [] => []
  | cell :: cells => tablesOf cell ++ tablesOfRow cells

def tablesOfRows : List (List (List Atom)) → List Grid
  | [] => []
  | row :: rows => tablesOfRow row ++ tablesOfRows rows

end

/-- The character that an atom is. -/
def char? : Atom → Option Char
  | .char c => some c
  | _ => none

/-! ## Units and tables of parts -/

@[simp]
theorem unitsOf_append (xs ys : Page) : unitsOf (xs ++ ys) = unitsOf xs ++ unitsOf ys := by
  induction xs with
  | nil => rfl
  | cons a xs ih => rw [List.cons_append, unitsOf, ih, unitsOf, List.append_assoc]

@[simp]
theorem unitsOfRow_append (xs ys : List Page) :
    unitsOfRow (xs ++ ys) = unitsOfRow xs ++ unitsOfRow ys := by
  induction xs with
  | nil => rfl
  | cons cell xs ih =>
    rw [List.cons_append, unitsOfRow, ih, unitsOfRow, List.cons_append, List.append_assoc]

@[simp]
theorem unitsOfRows_append (xs ys : Grid) :
    unitsOfRows (xs ++ ys) = unitsOfRows xs ++ unitsOfRows ys := by
  induction xs with
  | nil => rfl
  | cons row xs ih =>
    rw [List.cons_append, unitsOfRows, ih, unitsOfRows, List.cons_append, List.append_assoc]

@[simp]
theorem tablesOf_append (xs ys : Page) : tablesOf (xs ++ ys) = tablesOf xs ++ tablesOf ys := by
  induction xs with
  | nil => rfl
  | cons a xs ih => rw [List.cons_append, tablesOf, ih, tablesOf, List.append_assoc]

@[simp]
theorem unitsOf_map_char (t : Text) : unitsOf (t.map .char) = Body.ofText t := by
  induction t with
  | nil => rfl
  | cons c rest ih =>
    rw [List.map_cons, unitsOf, ih]
    rfl

@[simp]
theorem tablesOf_map_char (t : Text) : tablesOf (t.map .char) = [] := by
  induction t with
  | nil => rfl
  | cons c rest ih =>
    rw [List.map_cons, tablesOf, ih]
    rfl

theorem tablesOf_replicate (n : Nat) : tablesOf (List.replicate n (.object [])) = [] := by
  induction n with
  | zero => rfl
  | succ n ih =>
    rw [List.replicate_succ, tablesOf, ih]
    rfl

theorem count_ofChar (c : Char) (m : TableMark) : (Body.ofChar c).count (.mark m) = 0 := by
  unfold Body.ofChar
  split
  · rfl
  · rfl

mutual

/-- A table starts at each mark of one. -/
theorem count_units : ∀ a : Atom, (units a).count (.mark .table) = (tables a).length
  | .char c => count_ofChar c .table
  | .object _ => rfl
  | .table rows => by
    rw [units, List.count_cons_self, List.count_append, count_unitsOfRows rows]
    rfl

theorem count_unitsOf : ∀ page : Page,
    (unitsOf page).count (.mark .table) = (tablesOf page).length
  | [] => rfl
  | a :: rest => by
    rw [unitsOf, List.count_append, count_units a, count_unitsOf rest, tablesOf,
      List.length_append]

theorem count_unitsOfRow : ∀ cells : List Page,
    (unitsOfRow cells).count (.mark .table) = (tablesOfRow cells).length
  | [] => rfl
  | cell :: cells => by
    rw [unitsOfRow, List.count_cons_of_ne (by decide), List.count_append, count_unitsOf cell,
      count_unitsOfRow cells, tablesOfRow, List.length_append]

theorem count_unitsOfRows : ∀ rows : Grid,
    (unitsOfRows rows).count (.mark .table) = (tablesOfRows rows).length
  | [] => rfl
  | row :: rows => by
    rw [unitsOfRows, List.count_cons_of_ne (by decide), List.count_append, count_unitsOfRow row,
      count_unitsOfRows rows, tablesOfRows, List.length_append]

end

end Atom

/-! ## The units tell the page -/

/-- The units of a character can be told from what follows. -/
theorem Body.ofChar_append_inj {c d : Char} {x y : Body} (h : ofChar c ++ x = ofChar d ++ y) :
    c = d ∧ x = y := by
  have hc : c.toNat < 0xD800 ∨ 0xDFFF < c.toNat ∧ c.toNat < 0x110000 := c.valid
  have hd : d.toNat < 0xD800 ∨ 0xDFFF < d.toNat ∧ d.toNat < 0x110000 := d.valid
  have hcode : ∀ {m n : Nat}, BodyUnit.code m.toUInt16 = .code n.toUInt16 →
      m % 65536 = n % 65536 := by
    intro m n heq
    have hnat := congrArg UInt16.toNat (BodyUnit.code.inj heq)
    simpa using hnat
  unfold ofChar at h
  -- A single unit is no half of a pair, since no character is a surrogate.
  split at h
  next hshort =>
    split at h
    next hshort' =>
      obtain ⟨hfirst, hrest⟩ := List.cons.inj h
      have hsame := hcode hfirst
      exact ⟨Char.toNat_inj.1 (by omega), hrest⟩
    next hlong' =>
      have hsame := hcode (List.cons.inj h).1
      omega
  next hlong =>
    split at h
    next hshort' =>
      have hsame := hcode (List.cons.inj h).1
      omega
    next hlong' =>
      obtain ⟨hfirst, hrest⟩ := List.cons.inj h
      obtain ⟨hsecond, hrest⟩ := List.cons.inj hrest
      have hhigh := hcode hfirst
      have hlow := hcode hsecond
      exact ⟨Char.toNat_inj.1 (by omega), hrest⟩

theorem Body.exists_ofChar (c : Char) : ∃ unit rest, ofChar c = .code unit :: rest := by
  unfold ofChar
  split
  · exact ⟨_, _, rfl⟩
  · exact ⟨_, _, rfl⟩

namespace Atom

/-- The units come to an end, or go on with one of some marks. -/
def GoesOn (marks : List TableMark) (x : Body) : Prop :=
  x = [] ∨ ∃ m ∈ marks, ∃ rest, x = .mark m :: rest

theorem not_goesOn_cons {marks : List TableMark} {u : BodyUnit} {rest : Body}
    (h : ∀ m ∈ marks, u ≠ .mark m) : ¬ GoesOn marks (u :: rest) := by
  rintro (hnil | ⟨m, hm, tail, heq⟩)
  · cases hnil
  · exact h m hm (List.cons.inj heq).1

theorem GoesOn.mono {marks marks' : List TableMark} {x : Body} (h : GoesOn marks x)
    (hmarks : ∀ m ∈ marks, m ∈ marks') : GoesOn marks' x := by
  rcases h with hnil | ⟨m, hm, rest, heq⟩
  · exact .inl hnil
  · exact .inr ⟨m, hmarks m hm, rest, heq⟩

theorem GoesOn.row {x : Body} (h : GoesOn [.row, .tableEnd] x) (cells : List Page) :
    GoesOn [.row, .cell, .tableEnd] (unitsOfRow cells ++ x) := by
  cases cells with
  | nil => exact h.mono (by decide)
  | cons cell cells => exact .inr ⟨.cell, by decide, _, rfl⟩

theorem GoesOn.rows {x : Body} (h : GoesOn [.tableEnd] x) (rows : Grid) :
    GoesOn [.row, .tableEnd] (unitsOfRows rows ++ x) := by
  cases rows with
  | nil => exact h.mono (by decide)
  | cons row rows => exact .inr ⟨.row, by decide, _, rfl⟩

theorem not_goesOn_units (a : Atom) (x : Body) :
    ¬ GoesOn [.row, .cell, .tableEnd] (units a ++ x) := by
  cases a with
  | char c =>
    obtain ⟨unit, rest, hchar⟩ := Body.exists_ofChar c
    rw [units, hchar]
    exact not_goesOn_cons fun m _ heq => by cases heq
  | object name => exact not_goesOn_cons fun m _ heq => by cases heq
  | table rows =>
    rw [units]
    exact not_goesOn_cons (by simp)

mutual

theorem units_append_inj : ∀ (a b : Atom) {x y : Body}, units a ++ x = units b ++ y →
    a = b ∧ x = y
  | .char c, b, x, y, h => by
    obtain ⟨unit, rest, hchar⟩ := Body.exists_ofChar c
    cases b with
    | char d =>
      obtain ⟨rfl, hrest⟩ := Body.ofChar_append_inj h
      exact ⟨rfl, hrest⟩
    | object name =>
      rw [units, hchar] at h
      cases h
    | table rows =>
      rw [units, hchar, units] at h
      cases h
  | .object name, b, x, y, h => by
    cases b with
    | char d =>
      obtain ⟨unit, rest, hchar⟩ := Body.exists_ofChar d
      rw [units, units, hchar] at h
      cases h
    | object name' =>
      cases h
      exact ⟨rfl, rfl⟩
    | table rows =>
      rw [units, units] at h
      cases h
  | .table rows, b, x, y, h => by
    cases b with
    | char d =>
      obtain ⟨unit, rest, hchar⟩ := Body.exists_ofChar d
      rw [units, units, hchar] at h
      cases h
    | object name =>
      rw [units, units] at h
      cases h
    | table rows' =>
      have hend : ∀ z : Body, GoesOn [.tableEnd] (.mark .tableEnd :: z) :=
        fun z => .inr ⟨_, List.mem_singleton_self _, z, rfl⟩
      simp only [units, List.cons_append, List.append_assoc, List.cons.injEq, true_and] at h
      obtain ⟨rfl, hrest⟩ := unitsOfRows_append_inj rows rows' (hend x) (hend y) h
      exact ⟨rfl, (List.cons.inj hrest).2⟩

theorem unitsOf_append_inj : ∀ (p q : Page) {x y : Body}, GoesOn [.row, .cell, .tableEnd] x →
    GoesOn [.row, .cell, .tableEnd] y → unitsOf p ++ x = unitsOf q ++ y → p = q ∧ x = y
  | [], [], x, y, _, _, h => ⟨rfl, h⟩
  | [], b :: q, x, y, hx, _, h => by
    rw [unitsOf, unitsOf, List.nil_append, List.append_assoc] at h
    exact absurd (h ▸ hx) (not_goesOn_units b _)
  | a :: p, [], x, y, _, hy, h => by
    rw [unitsOf, unitsOf, List.nil_append, List.append_assoc] at h
    exact absurd (h ▸ hy) (not_goesOn_units a _)
  | a :: p, b :: q, x, y, hx, hy, h => by
    rw [unitsOf, unitsOf, List.append_assoc, List.append_assoc] at h
    obtain ⟨hatom, hrest⟩ := units_append_inj a b h
    obtain ⟨hpage, hend⟩ := unitsOf_append_inj p q hx hy hrest
    exact ⟨by rw [hatom, hpage], hend⟩

theorem unitsOfRow_append_inj : ∀ (p q : List Page) {x y : Body}, GoesOn [.row, .tableEnd] x →
    GoesOn [.row, .tableEnd] y → unitsOfRow p ++ x = unitsOfRow q ++ y → p = q ∧ x = y
  | [], [], x, y, _, _, h => ⟨rfl, h⟩
  | [], cell :: q, x, y, hx, _, h => by
    rw [unitsOfRow, unitsOfRow, List.nil_append, List.cons_append] at h
    exact absurd (h ▸ hx) (not_goesOn_cons (by simp))
  | cell :: p, [], x, y, _, hy, h => by
    rw [unitsOfRow, unitsOfRow, List.nil_append, List.cons_append] at h
    exact absurd (h ▸ hy) (not_goesOn_cons (by simp))
  | cell :: p, cell' :: q, x, y, hx, hy, h => by
    simp only [unitsOfRow, List.cons_append, List.append_assoc, List.cons.injEq, true_and] at h
    obtain ⟨hcell, hrest⟩ := unitsOf_append_inj cell cell' (hx.row p) (hy.row q) h
    obtain ⟨hcells, hend⟩ := unitsOfRow_append_inj p q hx hy hrest
    exact ⟨by rw [hcell, hcells], hend⟩

theorem unitsOfRows_append_inj : ∀ (p q : Grid) {x y : Body}, GoesOn [.tableEnd] x →
    GoesOn [.tableEnd] y → unitsOfRows p ++ x = unitsOfRows q ++ y → p = q ∧ x = y
  | [], [], x, y, _, _, h => ⟨rfl, h⟩
  | [], row :: q, x, y, hx, _, h => by
    rw [unitsOfRows, unitsOfRows, List.nil_append, List.cons_append] at h
    exact absurd (h ▸ hx) (not_goesOn_cons (by simp))
  | row :: p, [], x, y, _, hy, h => by
    rw [unitsOfRows, unitsOfRows, List.nil_append, List.cons_append] at h
    exact absurd (h ▸ hy) (not_goesOn_cons (by simp))
  | row :: p, row' :: q, x, y, hx, hy, h => by
    simp only [unitsOfRows, List.cons_append, List.append_assoc, List.cons.injEq, true_and] at h
    obtain ⟨hrow, hrest⟩ := unitsOfRow_append_inj row row' (hx.rows p) (hy.rows q) h
    obtain ⟨hrows, hend⟩ := unitsOfRows_append_inj p q hx hy hrest
    exact ⟨by rw [hrow, hrows], hend⟩

end

theorem unitsOf_injective {p q : Page} (h : unitsOf p = unitsOf q) : p = q :=
  (unitsOf_append_inj p q (.inl rfl) (.inl rfl) (congrArg (· ++ []) h)).1

end Atom

/-! ## What is around a table -/

namespace Atom

/-- The whole has a table of some number between two parts of its units, and it can be had with any
other rows in the place of that table. -/
structure Around {α : Type} (units : α → Body) (tables : α → List Grid) (whole : α) (number : Nat)
    (rows : Grid) (before behind : Body) : Prop where
  count : before.count (.mark .table) = number
  plug : ∃ (plug : Grid → α) (later : Nat), plug rows = whole ∧ ∀ new,
    units (plug new) = before ++ Atom.units (.table new) ++ behind ∧
      ∃ left right, left.length = number ∧ right.length = later ∧
        tables (plug new) = left ++ new :: (tablesOfRows new ++ right)

namespace Around

variable {α β : Type} {units : α → Body} {tables : α → List Grid} {whole : α} {number : Nat}
  {rows : Grid} {before behind : Body}

/-- What is around a table in a part of the whole is around it in the whole. -/
theorem map
    (h : Around units tables whole number rows before behind) (units' : β → Body)
    (tables' : β → List Grid) (f : α → β) (x y : Body) (n m : Nat)
    (hcount : x.count (.mark .table) = n) (hunits : ∀ a, units' (f a) = x ++ units a ++ y)
    (htables : ∀ a, ∃ left right, left.length = n ∧ right.length = m ∧
      tables' (f a) = left ++ tables a ++ right) :
    Around units' tables' (f whole) (n + number) rows (x ++ before) (behind ++ y) := by
  obtain ⟨plug, later, hself, hplug⟩ := h.plug
  refine ⟨?_, f ∘ plug, later + m, congrArg f hself, ?_⟩
  · rw [List.count_append, hcount, h.count]
  · intro new
    obtain ⟨hnew, left, right, hleft, hright, hat⟩ := hplug new
    obtain ⟨left', right', hleft', hright', hat'⟩ := htables (plug new)
    refine ⟨?_, left' ++ left, right ++ right', ?_, ?_, ?_⟩
    · rw [Function.comp_apply, hunits, hnew]
      simp only [List.append_assoc]
    · rw [List.length_append, hleft', hleft]
    · rw [List.length_append, hright, hright']
    · rw [Function.comp_apply, hat', hat]
      simp only [List.append_assoc, List.cons_append]

variable {page : Page} {cells : List Page} {grid : Grid}

theorem append_right
    (h : Around unitsOf tablesOf page number rows before behind) (rest : Page) :
    Around unitsOf tablesOf (page ++ rest) number rows before (behind ++ unitsOf rest) := by
  have hmap := h.map unitsOf tablesOf (· ++ rest) [] (unitsOf rest) 0 (tablesOf rest).length rfl
    (fun page => unitsOf_append page rest)
    (fun page => ⟨[], _, rfl, rfl, tablesOf_append page rest⟩)
  rwa [Nat.zero_add] at hmap

theorem append_left
    (h : Around unitsOf tablesOf page number rows before behind) (first : Page) :
    Around unitsOf tablesOf (first ++ page) ((tablesOf first).length + number) rows
      (unitsOf first ++ before) behind := by
  have hmap := h.map unitsOf tablesOf (first ++ ·) (unitsOf first) [] _ 0 (count_unitsOf first)
    (fun page => by simp) (fun page => ⟨tablesOf first, [], rfl, rfl, by simp⟩)
  rwa [List.append_nil] at hmap

theorem cell
    (h : Around unitsOf tablesOf page number rows before behind) (cells : List Page) :
    Around unitsOfRow tablesOfRow (page :: cells) number rows (.mark .cell :: before)
      (behind ++ unitsOfRow cells) := by
  have hmap := h.map unitsOfRow tablesOfRow (· :: cells) [.mark .cell] (unitsOfRow cells) 0
    (tablesOfRow cells).length rfl (fun page => by simp [unitsOfRow])
    (fun page => ⟨[], _, rfl, rfl, rfl⟩)
  rwa [Nat.zero_add] at hmap

theorem next_cell
    (h : Around unitsOfRow tablesOfRow cells number rows before behind) (page : Page) :
    Around unitsOfRow tablesOfRow (page :: cells) ((tablesOf page).length + number) rows
      (.mark .cell :: (unitsOf page ++ before)) behind := by
  have hcount : (BodyUnit.mark .cell :: unitsOf page).count (.mark .table) =
      (tablesOf page).length := by
    rw [List.count_cons_of_ne (by decide), count_unitsOf]
  have hmap := h.map unitsOfRow tablesOfRow (page :: ·) (.mark .cell :: unitsOf page) [] _ 0 hcount
    (fun cells => by simp [unitsOfRow])
    (fun cells => ⟨tablesOf page, [], rfl, rfl, by simp [tablesOfRow]⟩)
  rwa [List.append_nil] at hmap

theorem row
    (h : Around unitsOfRow tablesOfRow cells number rows before behind) (grid : Grid) :
    Around unitsOfRows tablesOfRows (cells :: grid) number rows (.mark .row :: before)
      (behind ++ unitsOfRows grid) := by
  have hmap := h.map unitsOfRows tablesOfRows (· :: grid) [.mark .row] (unitsOfRows grid) 0
    (tablesOfRows grid).length rfl (fun cells => by simp [unitsOfRows])
    (fun cells => ⟨[], _, rfl, rfl, rfl⟩)
  rwa [Nat.zero_add] at hmap

theorem next_row
    (h : Around unitsOfRows tablesOfRows grid number rows before behind) (cells : List Page) :
    Around unitsOfRows tablesOfRows (cells :: grid) ((tablesOfRow cells).length + number) rows
      (.mark .row :: (unitsOfRow cells ++ before)) behind := by
  have hcount : (BodyUnit.mark .row :: unitsOfRow cells).count (.mark .table) =
      (tablesOfRow cells).length := by
    rw [List.count_cons_of_ne (by decide), count_unitsOfRow]
  have hmap := h.map unitsOfRows tablesOfRows (cells :: ·) (.mark .row :: unitsOfRow cells) [] _ 0
    hcount (fun grid => by simp [unitsOfRows])
    (fun grid => ⟨tablesOfRow cells, [], rfl, rfl, by simp [tablesOfRows]⟩)
  rwa [List.append_nil] at hmap

theorem table (h : Around unitsOfRows tablesOfRows grid number rows before behind) :
    Around unitsOf tablesOf [.table grid] (number + 1) rows (.mark .table :: before)
      (behind ++ [.mark .tableEnd]) := by
  have hmap := h.map unitsOf tablesOf (fun grid => [.table grid]) [.mark .table]
    [.mark .tableEnd] 1 0 rfl (fun grid => by simp [unitsOf, Atom.units])
    (fun grid => ⟨[grid], [], rfl, rfl, by simp [tablesOf, Atom.tables]⟩)
  rwa [Nat.add_comm] at hmap

theorem self (rows : Grid) : Around unitsOf tablesOf [.table rows] 0 rows [] [] := by
  refine ⟨rfl, fun new => [.table new], 0, rfl, fun new => ⟨?_, [], [], rfl, rfl, ?_⟩⟩
  · simp [unitsOf]
  · simp [tablesOf, Atom.tables]

end Around

end Atom

/-! ## Documents that display a page -/

/-- The bounds of something with a place and a length. -/
def Bounds.cover (place length : Nat) : Bounds :=
  ⟨some place, some (place + length)⟩

namespace Piece

/-- The atoms of a piece: the characters of a run, or one object. -/
def atoms (p : Piece) : Page :=
  match p.content with
  | .run text => text.map .char
  | .image id => [.object id]
  | .other => [.object []]

/-- The pieces follow one another from a place on, and no run is empty. -/
def Placed : Nat → List Piece → Prop
  | _, [] => True
  | place, p :: rest =>
    p.bounds = .cover place (Atom.unitsOf p.atoms).length ∧ p.content ≠ .run [] ∧
      Placed (place + (Atom.unitsOf p.atoms).length) rest

end Piece

namespace Element

mutual

/-- The atoms of an element.  Of an element that is neither paragraph nor table nothing is known but
its length. -/
def atoms : Element → Page
  | .paragraph _ p => p.pieces.flatMap Piece.atoms
  | .table _ rows => [.table (atomsOfRows rows)]
  | .sectionBreak b => List.replicate (b.stop - b.start).toNat (.object [])
  | .other b => List.replicate (b.stop - b.start).toNat (.object [])

def atomsOf : List Element → Page
  | [] => []
  | e :: es => atoms e ++ atomsOf es

def atomsOfRow : List (List Element) → List Page
  | [] => []
  | cell :: cells => atomsOf cell :: atomsOfRow cells

def atomsOfRows : List (List (List Element)) → Grid
  | [] => []
  | row :: rows => atomsOfRow row :: atomsOfRows rows

end

mutual

/-- The positions of an element are those of its atoms from a place on. -/
def Placed : Nat → Element → Prop
  | place, .paragraph b p =>
    b = .cover place (Atom.unitsOf (p.pieces.flatMap Piece.atoms)).length ∧
      Piece.Placed place p.pieces
  | place, .table b rows =>
    b = .cover place (Atom.units (.table (atomsOfRows rows))).length ∧ PlacedRows (place + 1) rows
  | place, .sectionBreak b => b.start = place ∧ b.start ≤ b.stop
  | place, .other b => b.start = place ∧ b.start ≤ b.stop

def PlacedOf : Nat → List Element → Prop
  | _, [] => True
  | place, e :: es => Placed place e ∧ PlacedOf (place + (Atom.unitsOf (atoms e)).length) es

def PlacedRow : Nat → List (List Element) → Prop
  | _, [] => True
  | place, cell :: cells =>
    PlacedOf (place + 1) cell ∧
      PlacedRow (place + 1 + (Atom.unitsOf (atomsOf cell)).length) cells

def PlacedRows : Nat → List (List (List Element)) → Prop
  | _, [] => True
  | place, row :: rows =>
    PlacedRow (place + 1) row ∧
      PlacedRows (place + 1 + (Atom.unitsOfRow (atomsOfRow row)).length) rows

end

mutual

theorem tables_atoms : ∀ e : Element,
    Atom.tablesOf (atoms e) = (tables e).map fun t => atomsOfRows t.rows
  | .paragraph _ p => by
    rw [atoms, tables, List.map_nil]
    induction p.pieces with
    | nil => rfl
    | cons piece rest ih =>
      rw [List.flatMap_cons, Atom.tablesOf_append, ih, List.append_nil, Piece.atoms]
      split
      · exact Atom.tablesOf_map_char _
      · rfl
      · rfl
  | .table b rows => by
    rw [atoms, Atom.tablesOf, Atom.tables, tables_atomsOfRows rows, tables]
    simp [Atom.tablesOf]
  | .sectionBreak _ => Atom.tablesOf_replicate _
  | .other _ => Atom.tablesOf_replicate _

theorem tables_atomsOf : ∀ es : List Element,
    Atom.tablesOf (atomsOf es) = (tablesOf es).map fun t => atomsOfRows t.rows
  | [] => rfl
  | e :: es => by
    rw [atomsOf, Atom.tablesOf_append, tables_atoms e, tables_atomsOf es, tablesOf,
      List.map_append]

theorem tables_atomsOfRow : ∀ cells : List (List Element),
    Atom.tablesOfRow (atomsOfRow cells) = (tablesOfRow cells).map fun t => atomsOfRows t.rows
  | [] => rfl
  | cell :: cells => by
    rw [atomsOfRow, Atom.tablesOfRow, tables_atomsOf cell, tables_atomsOfRow cells, tablesOfRow,
      List.map_append]

theorem tables_atomsOfRows : ∀ rows : List (List (List Element)),
    Atom.tablesOfRows (atomsOfRows rows) = (tablesOfRows rows).map fun t => atomsOfRows t.rows
  | [] => rfl
  | row :: rows => by
    rw [atomsOfRows, Atom.tablesOfRows, tables_atomsOfRow row, tables_atomsOfRows rows,
      tablesOfRows, List.map_append]

end

mutual

theorem exists_around : ∀ (e : Element) {place number : Nat} {t : Table}, Placed place e →
    (tables e)[number]? = some t → ∃ before behind,
      Atom.Around Atom.unitsOf Atom.tablesOf (atoms e) number (atomsOfRows t.rows) before behind ∧
        Placed (place + before.length) (.table t.bounds t.rows)
  | .paragraph _ _, _, _, _, _, ht => by cases ht
  | .sectionBreak _, _, _, _, _, ht => by cases ht
  | .other _, _, _, _, _, ht => by cases ht
  | .table b rows, place, number, t, hplaced, ht => by
    cases number with
    | zero =>
      cases ht
      exact ⟨[], [], .self _, hplaced⟩
    | succ number =>
      rw [Placed] at hplaced
      obtain ⟨before, behind, haround, hrows⟩ := exists_around_rows rows hplaced.2 ht
      refine ⟨_, _, haround.table, ?_⟩
      rw [List.length_cons]
      rwa [show place + (before.length + 1) = place + 1 + before.length by omega]

theorem exists_around_list : ∀ (es : List Element) {place number : Nat} {t : Table},
    PlacedOf place es → (tablesOf es)[number]? = some t → ∃ before behind,
      Atom.Around Atom.unitsOf Atom.tablesOf (atomsOf es) number (atomsOfRows t.rows)
          before behind ∧
        Placed (place + before.length) (.table t.bounds t.rows)
  | [], _, _, _, _, ht => by cases ht
  | e :: es, place, number, t, hplaced, ht => by
    rw [PlacedOf] at hplaced
    rw [tablesOf] at ht
    -- The table is in the first element, or its number counts on behind the tables there.
    by_cases hlt : number < (tables e).length
    · rw [List.getElem?_append_left hlt] at ht
      obtain ⟨before, behind, haround, hrows⟩ := exists_around e hplaced.1 ht
      exact ⟨_, _, haround.append_right _, hrows⟩
    · rw [List.getElem?_append_right (by omega)] at ht
      obtain ⟨before, behind, haround, hrows⟩ := exists_around_list es hplaced.2 ht
      have hnumber : (Atom.tablesOf (atoms e)).length + (number - (tables e).length) = number := by
        rw [tables_atoms, List.length_map]
        omega
      refine ⟨_, _, hnumber ▸ haround.append_left (atoms e), ?_⟩
      rwa [List.length_append, ← Nat.add_assoc]

theorem exists_around_row : ∀ (cells : List (List Element)) {place number : Nat} {t : Table},
    PlacedRow place cells → (tablesOfRow cells)[number]? = some t → ∃ before behind,
      Atom.Around Atom.unitsOfRow Atom.tablesOfRow (atomsOfRow cells) number (atomsOfRows t.rows)
          before behind ∧
        Placed (place + before.length) (.table t.bounds t.rows)
  | [], _, _, _, _, ht => by cases ht
  | cell :: cells, place, number, t, hplaced, ht => by
    rw [PlacedRow] at hplaced
    rw [tablesOfRow] at ht
    by_cases hlt : number < (tablesOf cell).length
    · rw [List.getElem?_append_left hlt] at ht
      obtain ⟨before, behind, haround, hrows⟩ := exists_around_list cell hplaced.1 ht
      refine ⟨_, _, haround.cell _, ?_⟩
      rw [List.length_cons]
      rwa [show place + (before.length + 1) = place + 1 + before.length by omega]
    · rw [List.getElem?_append_right (by omega)] at ht
      obtain ⟨before, behind, haround, hrows⟩ := exists_around_row cells hplaced.2 ht
      have hnumber : (Atom.tablesOf (atomsOf cell)).length + (number - (tablesOf cell).length) =
          number := by
        rw [tables_atomsOf, List.length_map]
        omega
      refine ⟨_, _, hnumber ▸ haround.next_cell (atomsOf cell), ?_⟩
      rw [List.length_cons, List.length_append]
      rwa [show place + ((Atom.unitsOf (atomsOf cell)).length + before.length + 1) =
        place + 1 + (Atom.unitsOf (atomsOf cell)).length + before.length by omega]

theorem exists_around_rows : ∀ (rows : List (List (List Element))) {place number : Nat}
    {t : Table}, PlacedRows place rows → (tablesOfRows rows)[number]? = some t → ∃ before behind,
      Atom.Around Atom.unitsOfRows Atom.tablesOfRows (atomsOfRows rows) number
          (atomsOfRows t.rows) before behind ∧
        Placed (place + before.length) (.table t.bounds t.rows)
  | [], _, _, _, _, ht => by cases ht
  | row :: rows, place, number, t, hplaced, ht => by
    rw [PlacedRows] at hplaced
    rw [tablesOfRows] at ht
    by_cases hlt : number < (tablesOfRow row).length
    · rw [List.getElem?_append_left hlt] at ht
      obtain ⟨before, behind, haround, hrows⟩ := exists_around_row row hplaced.1 ht
      refine ⟨_, _, haround.row _, ?_⟩
      rw [List.length_cons]
      rwa [show place + (before.length + 1) = place + 1 + before.length by omega]
    · rw [List.getElem?_append_right (by omega)] at ht
      obtain ⟨before, behind, haround, hrows⟩ := exists_around_rows rows hplaced.2 ht
      have hnumber : (Atom.tablesOfRow (atomsOfRow row)).length +
          (number - (tablesOfRow row).length) = number := by
        rw [tables_atomsOfRow, List.length_map]
        omega
      refine ⟨_, _, hnumber ▸ haround.next_row (atomsOfRow row), ?_⟩
      rw [List.length_cons, List.length_append]
      rwa [show place + ((Atom.unitsOfRow (atomsOfRow row)).length + before.length + 1) =
        place + 1 + (Atom.unitsOfRow (atomsOfRow row)).length + before.length by omega]

end

end Element

/-- The document displays a page whose units start at a place. -/
structure Document.Displays (d : Document) (place : Nat) (page : Page) : Prop where
  atoms : Element.atomsOf d.body = page
  placed : Element.PlacedOf place d.body

/-- A service with a page in its state.  Its document displays the page behind some units in front,
and it carries out every batch that leaves a page to the letter. -/
structure Service.Faithful {σ : Type} (service : Service σ) (front : Body) (view : σ → Page) :
    Prop where
  fetch : ∀ state, ∃ d state', service.fetch state = (.ok d, state') ∧ view state' = view state ∧
    d.Displays front.length (view state)
  update : ∀ {requests : List Request} {state : σ} {page : Page},
    Request.carryOutAll? requests (front ++ Atom.unitsOf (view state)) =
        some (front ++ Atom.unitsOf page) →
      ∃ response state', service.update requests state = (.ok response, state') ∧
        view state' = page

namespace Atom.Around

variable {page : Page} {number : Nat} {rows : Grid} {before behind : Body}

theorem units_eq (h : Around unitsOf tablesOf page number rows before behind) :
    unitsOf page = before ++ units (.table rows) ++ behind := by
  obtain ⟨plug, later, hself, hplug⟩ := h.plug
  rw [← hself]
  exact (hplug rows).1

theorem getElem?_tablesOf (h : Around unitsOf tablesOf page number rows before behind) :
    (tablesOf page)[number]? = some rows := by
  obtain ⟨plug, later, hself, hplug⟩ := h.plug
  obtain ⟨-, left, right, hleft, -, htables⟩ := hplug rows
  rw [← hself, htables, ← hleft, List.getElem?_append_right (Nat.le_refl _), Nat.sub_self]
  rfl

/-- The same page with other rows, and by how much the number of its tables changes. -/
theorem exists_with
    (h : Around unitsOf tablesOf page number rows before behind) (new : Grid) :
    ∃ page', Around unitsOf tablesOf page' number new before behind ∧
      (tablesOf page').length + (tablesOfRows rows).length =
        (tablesOf page).length + (tablesOfRows new).length := by
  obtain ⟨plug, later, hself, hplug⟩ := h.plug
  refine ⟨plug new, ⟨h.count, plug, later, rfl, hplug⟩, ?_⟩
  obtain ⟨-, left, right, hleft, hright, htables⟩ := hplug rows
  obtain ⟨-, left', right', hleft', hright', htables'⟩ := hplug new
  rw [← hself, htables, htables']
  simp only [List.length_append, List.length_cons, hleft, hright, hleft', hright']
  omega

end Atom.Around

/-- An element stands at one place only, when it is known how often it occurs before. -/
theorem append_cons_inj_of_count
    {α : Type} [BEq α] [LawfulBEq α] {a : α} {xs xs' ys ys' : List α}
    (h : xs ++ a :: ys = xs' ++ a :: ys') (hcount : xs.count a = xs'.count a) : xs = xs' := by
  induction xs generalizing xs' with
  | nil =>
    cases xs' with
    | nil => rfl
    | cons x xs' =>
      obtain ⟨rfl, -⟩ := List.cons.inj h
      simp at hcount
  | cons x xs ih =>
    cases xs' with
    | nil =>
      obtain ⟨rfl, -⟩ := List.cons.inj h
      simp at hcount
    | cons x' xs' =>
      obtain ⟨rfl, hrest⟩ := List.cons.inj h
      rw [List.count_cons, List.count_cons, Nat.add_right_cancel_iff] at hcount
      rw [ih hrest hcount]

namespace Document.Displays

variable {d : Document} {place : Nat} {page : Page} {rows : Grid} {before behind : Body}

/-- At each mark of one, a table stands in the units: the table of each document that displays the
page whose number is that of the marks before. -/
theorem exists_table_of_mark
    (hd : d.Displays place page) (h : Atom.unitsOf page = before ++ .mark .table :: behind) :
    ∃ t rest, d.tables[before.count (.mark .table)]? = some t ∧
      Atom.unitsOf page = before ++ Atom.units (.table (Element.atomsOfRows t.rows)) ++ rest ∧
        Element.Placed (place + before.length) (.table t.bounds t.rows) := by
  have hlength : before.count (.mark .table) < d.tables.length := by
    have hcount := Atom.count_unitsOf page
    rw [← hd.atoms, Element.tables_atomsOf, List.length_map, hd.atoms, h, List.count_append,
      List.count_cons_self] at hcount
    rw [Document.tables, ← hcount]
    omega
  have ht := List.getElem?_eq_getElem hlength
  obtain ⟨before', rest, haround, hplaced⟩ := Element.exists_around_list _ hd.placed ht
  have hunits := haround.units_eq
  rw [hd.atoms] at hunits
  -- Both parts end before the mark of the table with the same number.
  have hsame : before = before' := by
    rw [h, List.append_assoc] at hunits
    exact append_cons_inj_of_count hunits haround.count.symm
  subst hsame
  exact ⟨_, rest, ht, hunits, hplaced⟩

/-- A table that stands in the units has its place in each document that displays the page. -/
theorem exists_table_of_units
    (hd : d.Displays place page)
    (h : Atom.unitsOf page = before ++ Atom.units (.table rows) ++ behind) :
    ∃ t, d.tables[before.count (.mark .table)]? = some t ∧ Element.atomsOfRows t.rows = rows ∧
      Element.Placed (place + before.length) (.table t.bounds t.rows) := by
  rw [List.append_assoc] at h
  obtain ⟨t, rest, ht, hunits, hplaced⟩ := hd.exists_table_of_mark h
  rw [h, List.append_assoc] at hunits
  obtain ⟨hrows, -⟩ := Atom.units_append_inj _ _ (List.append_cancel_left hunits)
  exact ⟨t, ht, (Atom.table.inj hrows).symm, hplaced⟩

/-- A table of the page is a table of each document that displays the page, under the same number,
and its rows have their places in the units. -/
theorem exists_table
    {number : Nat} (hd : d.Displays place page)
    (h : Atom.Around Atom.unitsOf Atom.tablesOf page number rows before behind) :
    ∃ t, d.tables[number]? = some t ∧ Element.atomsOfRows t.rows = rows ∧
      Element.PlacedRows (place + before.length + 1) t.rows := by
  obtain ⟨t, ht, hrows, hplaced⟩ := hd.exists_table_of_units h.units_eq
  rw [Element.Placed] at hplaced
  exact ⟨t, h.count ▸ ht, hrows, hplaced.2⟩

end Document.Displays

end Redline
