import Redline.Expression.Basic
import Redline.Proofs.BlockPlaces

/-!
# Directives in one

The blocks over all of a text are taken together as one directive.  A directive makes settings, and
what counts as a setting differs from field to field: a flag that is on or off, a word that is not
empty, a number that is not zero, a value that is there.  Taking directives together is associative,
and for every field the last setting wins, whatever counts as one.
-/

namespace Redline.Directive

/-! ## Settings -/

/-- The fields of a directive other than the texts that it puts in. -/
inductive Field where
  | flag (f : Flag)
  | color
  | background
  | font
  | size
  | url
  | heading
  | leading
  | align
  | opacity
  | indent
  | kerning
  | width
  | height
  | spacing
  | effect
  | columns
  | reset
  | keepStyle
  | pageBreak
  | comment
  | bookmark
  | check
  | contents
  | image
  | table
deriving Repr, DecidableEq

/-- What a field can be set to. -/
inductive Setting where
  | switch (on : Bool)
  | word (t : Text)
  | real (x : Float)
  | whole (n : Nat)
  | spacing (s : Spacing)
  | depth (n : Option Nat)

namespace Setting

def ofWord? (t : Text) : Option Setting :=
  if t.isEmpty then none else some (.word t)

def ofWhole? (n : Nat) : Option Setting :=
  if n > 0 then some (.whole n) else none

def ofReal? (x : Float) : Option Setting :=
  if x != 0 then some (.real x) else none

def ofMark? (on : Bool) : Option Setting :=
  if on then some (.switch true) else none

end Setting

open Setting in
/-- The setting of a field, if the directive makes one. -/
def setting? (d : Directive) : Field → Option Setting
  | .flag f => (d.flag f).map .switch
  | .color => ofWord? d.color
  | .background => ofWord? d.background
  | .font => ofWord? d.font
  | .size => d.size.map .real
  | .url => ofWord? d.url
  | .heading => ofWord? d.heading
  | .leading => d.leading.map .real
  | .align => ofWord? d.align
  | .opacity => ofWhole? d.opacity
  | .indent => d.indent.map .whole
  | .kerning => ofReal? d.kerning
  | .width => ofWhole? d.width
  | .height => ofWhole? d.height
  | .spacing => d.spacing.map .spacing
  | .effect => ofWord? d.effect
  | .columns => ofWhole? d.columns
  | .reset => ofMark? d.reset
  | .keepStyle => ofMark? d.keepStyle
  | .pageBreak => d.pageBreak.map .word
  | .comment => ofWord? d.comment
  | .bookmark => ofWord? d.bookmark
  | .check => d.check.map .switch
  | .contents => d.contents.map .depth
  | .image => ofWord? d.image
  | .table => ofWord? d.table

namespace Setting

theorem ofWord?_laterText (later earlier : Text) :
    ofWord? (laterText later earlier) = (ofWord? later).or (ofWord? earlier) := by
  cases later <;> rfl

theorem ofWhole?_laterNat (later earlier : Nat) :
    ofWhole? (laterNat later earlier) = (ofWhole? later).or (ofWhole? earlier) := by
  cases later <;> rfl

theorem ofReal?_laterReal (later earlier : Float) :
    ofReal? (laterReal later earlier) = (ofReal? later).or (ofReal? earlier) := by
  unfold ofReal? laterReal
  cases hlater : later != 0 with
  | false => rfl
  | true => simp only [hlater, if_pos, Option.some_or]

theorem ofMark?_or (earlier later : Bool) :
    ofMark? (earlier || later) = (ofMark? later).or (ofMark? earlier) := by
  cases later <;> cases earlier <;> rfl

end Setting

theorem flag_merge (earlier later : Directive) (f : Flag) :
    (earlier.merge later).flag f = (later.flag f).or (earlier.flag f) := by
  cases f <;> rfl

/-- In two directives taken together, the settings of the later one win. -/
theorem setting?_merge (earlier later : Directive) (field : Field) :
    (earlier.merge later).setting? field =
      (later.setting? field).or (earlier.setting? field) := by
  cases field with
  | flag f =>
    rw [setting?, flag_merge]
    exact Option.map_or
  | size | leading | indent | spacing | pageBreak | check | contents => exact Option.map_or
  | opacity | width | height | columns => exact Setting.ofWhole?_laterNat _ _
  | kerning => exact Setting.ofReal?_laterReal _ _
  | reset | keepStyle => exact Setting.ofMark?_or _ _
  | color | background | font | url | heading | align | effect | comment | bookmark | image
  | table => exact Setting.ofWord?_laterText _ _

theorem setting?_default (field : Field) : ({} : Directive).setting? field = none := by
  cases field with
  | flag f => cases f <;> rfl
  | kerning => rfl
  | _ => rfl

/-! ## Taking directives together -/

section Merge

variable {a b c : Directive}

@[simp]
theorem nil_laterText (t : Text) : laterText [] t = t :=
  rfl

@[simp]
theorem laterText_nil (t : Text) : laterText t [] = t := by
  cases t <;> rfl

@[simp]
theorem zero_laterNat (n : Nat) : laterNat 0 n = n :=
  rfl

@[simp]
theorem laterNat_zero (n : Nat) : laterNat n 0 = n := by
  cases n <;> rfl

@[simp]
theorem zero_laterReal (x : Float) : laterReal 0 x = x :=
  rfl

theorem laterText_assoc (x y z : Text) :
    laterText z (laterText y x) = laterText (laterText z y) x := by
  cases z <;> rfl

theorem laterNat_assoc (x y z : Nat) :
    laterNat z (laterNat y x) = laterNat (laterNat z y) x := by
  cases z <;> rfl

theorem laterReal_assoc (x y z : Float) :
    laterReal z (laterReal y x) = laterReal (laterReal z y) x := by
  unfold laterReal
  cases hz : z != 0 with
  | false => rfl
  | true => simp only [hz, if_pos]

theorem merge_assoc (a b c : Directive) : (a.merge b).merge c = a.merge (b.merge c) := by
  simp only [merge, Option.or_assoc, laterText_assoc, laterNat_assoc, laterReal_assoc,
    Bool.or_assoc]

/-- A directive that puts in no texts is not changed by one without settings behind it. -/
theorem merge_default (hinline : a.inline = []) (htext : a.text = []) : a.merge {} = a := by
  obtain ⟨⟩ := a
  cases hinline
  cases htext
  simp [merge]

/-- What stands before a list of directives is merged with the list as a whole. -/
theorem foldl_merge (ds : List Directive) (hinline : a.inline = []) (htext : a.text = []) :
    ds.foldl merge a = a.merge (ds.foldl merge {}) := by
  induction ds generalizing a with
  | nil => exact (merge_default hinline htext).symm
  | cons d ds ih =>
    rw [List.foldl_cons, List.foldl_cons, @ih (a.merge d) rfl rfl,
      @ih (({} : Directive).merge d) rfl rfl, ← merge_assoc, ← merge_assoc,
      merge_default hinline htext]

theorem setting?_foldl_merge (ds : List Directive) (a : Directive) (field : Field) :
    (ds.foldl merge a).setting? field =
      (ds.reverse.findSome? (·.setting? field)).or (a.setting? field) := by
  induction ds generalizing a with
  | nil => rfl
  | cons d ds ih =>
    rw [List.foldl_cons, ih, setting?_merge, ← Option.or_assoc, List.reverse_cons,
      List.findSome?_append, List.findSome?_singleton]

end Merge

/-! ## Blocks over all of the text -/

theorem ofBlocks_eq_foldl (xs : List Block) :
    ofBlocks xs = ((xs.filter Block.isGlobal).map Block.directive).foldl merge {} := by
  rw [List.foldl_map]
  rfl

theorem default_merge_ofBlocks (xs : List Block) :
    ({} : Directive).merge (ofBlocks xs) = ofBlocks xs := by
  rw [ofBlocks_eq_foldl, ← foldl_merge _ rfl rfl]

theorem ofBlocks_append (xs ys : List Block) :
    ofBlocks (xs ++ ys) = (ofBlocks xs).merge (ofBlocks ys) := by
  have hinline : (ofBlocks xs).inline = [] := by
    rw [← default_merge_ofBlocks]
    rfl
  have htext : (ofBlocks xs).text = [] := by
    rw [← default_merge_ofBlocks]
    rfl
  rw [ofBlocks_eq_foldl (xs ++ ys), List.filter_append, List.map_append, List.foldl_append,
    ← ofBlocks_eq_foldl, foldl_merge _ hinline htext, ← ofBlocks_eq_foldl]

/-- The setting of a field is that of the last block over all of the text that makes one. -/
theorem setting?_ofBlocks (xs : List Block) (field : Field) :
    (ofBlocks xs).setting? field =
      (xs.filter Block.isGlobal).reverse.findSome? (·.directive.setting? field) := by
  rw [ofBlocks_eq_foldl, setting?_foldl_merge, setting?_default, Option.or_none, ← List.map_reverse,
    List.findSome?_map]
  rfl

theorem ofBlocks_of_not_isGlobal {b : Block} (hb : b.isGlobal = false) (xs ys : List Block) :
    ofBlocks (xs ++ b :: ys) = ofBlocks (xs ++ ys) := by
  have hrest : ofBlocks (b :: ys) = ofBlocks ys := by
    rw [ofBlocks, List.filter_cons_of_neg (by rw [hb]; decide), ← ofBlocks]
  rw [ofBlocks_append, hrest, ← ofBlocks_append]

/-- The directives make the same settings: they are equal but for the texts that they put in their
places and the sign of a kerning of zero. -/
def SameSettings (a b : Directive) : Prop :=
  ∃ kerning, (kerning = b.kerning ∨ (b.kerning == kerning) = true) ∧
    a = { b with text := a.text, kerning := kerning }

theorem SameSettings.refl (a : Directive) : a.SameSettings a :=
  ⟨a.kerning, .inl rfl, rfl⟩

theorem sameSettings_default_merge {d : Directive} (hinline : d.inline = []) :
    (({} : Directive).merge d).SameSettings d := by
  refine ⟨laterReal d.kerning 0, ?_, ?_⟩
  · unfold laterReal
    split
    · exact .inl rfl
    · next hzero => exact .inr (by simpa [bne] using hzero)
  · obtain ⟨⟩ := d
    cases hinline
    simp [merge]

theorem ofBlocks_singleton {b : Block} (hb : b.isGlobal = true) :
    ofBlocks [b] = ({} : Directive).merge b.directive := by
  rw [ofBlocks, List.filter_cons_of_pos hb]
  rfl

/-- A block over all of the text puts in no texts of flags, so it stands for itself. -/
theorem sameSettings_of_mem_extract {replacement : Text} {b : Block}
    (hmem : b ∈ (Block.extract replacement).2) (hb : b.isGlobal = true) :
    (ofBlocks [b]).SameSettings b.directive := by
  obtain ⟨content, d, start, between, -, hplace⟩ := Block.exists_place_of_mem_extract hmem
  rw [ofBlocks_singleton hb]
  rcases (Block.cases_of_mem_place hplace).2 with ⟨-, stop, hstop⟩ | ⟨-, hinline, hdirective⟩
  · rw [Block.isGlobal, hstop] at hb
    cases hb
  · rw [hdirective]
    exact sameSettings_default_merge hinline

theorem exists_directive? {replacement : Text} {e : Expression}
    (hblocks : e.blocks = (Block.extract replacement).2) (hne : e.blocks ≠ []) :
    ∃ d, e.directive? = some d ∧ (ofBlocks e.blocks).SameSettings d := by
  unfold Expression.directive?
  split
  · next hnil => exact absurd hnil hne
  · next b hone =>
    rw [hone]
    split
    · next hb =>
      have hmem : b ∈ (Block.extract replacement).2 := by
        rw [← hblocks, hone]
        exact List.mem_singleton_self b
      exact ⟨b.directive, rfl, sameSettings_of_mem_extract hmem hb⟩
    · exact ⟨_, rfl, .refl _⟩
  · exact ⟨_, rfl, .refl _⟩

/-- The directive of all blocks is put together part by part, the last setting of each field counts,
and only blocks over all of the text matter.  A single such block stands for itself, so that the
directive of an expression makes the same settings whether or not its blocks are put together. -/
theorem later_blocks_win (xs ys : List Block) :
    (∀ start start' raw raw', ofBlocks (xs ++ ys) =
        ofBlocks [⟨ofBlocks xs, start, .everything, raw⟩,
          ⟨ofBlocks ys, start', .everything, raw'⟩]) ∧
      (∀ field, (ofBlocks xs).setting? field =
        (xs.filter Block.isGlobal).reverse.findSome? (·.directive.setting? field)) ∧
      (∀ b, b.isGlobal = false → ofBlocks (xs ++ b :: ys) = ofBlocks (xs ++ ys)) ∧
      (∀ replacement, ∀ b ∈ (Block.extract replacement).2, b.isGlobal = true →
        (ofBlocks [b]).SameSettings b.directive) ∧
      ∀ replacement, ∀ e : Expression, e.blocks = (Block.extract replacement).2 → e.blocks ≠ [] →
        ∃ d, e.directive? = some d ∧ (ofBlocks e.blocks).SameSettings d := by
  refine ⟨fun start start' raw raw' => ?_, setting?_ofBlocks xs,
    fun b hb => ofBlocks_of_not_isGlobal hb xs ys, fun replacement b => sameSettings_of_mem_extract,
    fun replacement e => exists_directive?⟩
  calc ofBlocks (xs ++ ys)
      = (ofBlocks xs).merge (ofBlocks ys) := ofBlocks_append xs ys
    _ = (({} : Directive).merge (ofBlocks xs)).merge (ofBlocks ys) := by
      rw [default_merge_ofBlocks]

/-- A block over all of the text that puts the match back in its place. -/
def quoted : Text :=
  "\x7bt b s=12\x7d".toList

theorem later_blocks_win_quoted :
    ((⟨{}, 0, .point, []⟩ : Block).isGlobal = false ∧
      ofBlocks ([] ++ ⟨{}, 0, .point, []⟩ :: (Block.extract quoted).2) =
        ofBlocks ([] ++ (Block.extract quoted).2)) ∧
      (∃ b ∈ (Block.extract quoted).2, b.isGlobal = true ∧ b.directive.text = "$0".toList ∧
        (ofBlocks [b]).SameSettings b.directive) ∧
      (Block.extract quoted).2 ≠ [] ∧
      ∃ d, Expression.directive?
          { pattern := [], blocks := (Block.extract quoted).2, raw := [] } = some d ∧
        (ofBlocks (Block.extract quoted).2).SameSettings d := by
  obtain ⟨b, hmem, hb, htext⟩ : ∃ b ∈ (Block.extract quoted).2, b.isGlobal = true ∧
      b.directive.text = "$0".toList := by decide +kernel
  have hne : (Block.extract quoted).2 ≠ [] := List.ne_nil_of_mem hmem
  obtain ⟨-, -, hlocal, hsingle, hexpression⟩ := later_blocks_win [] (Block.extract quoted).2
  exact ⟨⟨rfl, hlocal _ rfl⟩, ⟨b, hmem, hb, htext, hsingle quoted b hmem hb⟩, hne,
    hexpression quoted _ rfl hne⟩

end Redline.Directive
