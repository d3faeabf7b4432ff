import Redline.Document.Basic

/-!
# The outline of a document

Each element of a document has a path: the position of an element in the body, then the position of
an element in the cells of that one, and so on.  The outline lists all elements with their paths,
each element before those in its cells.  The paragraphs and the tables of a document are picked from
its outline, so they are listed in the same order, and none is left out or listed twice.
-/

namespace Redline

/-! ## Listings -/

/-- The list has everything that can be looked up, each thing once and with its key. -/
structure Lists {κ α : Type} (lookup : κ → Option α) (listed : List (κ × α)) : Prop where
  apart : listed.Pairwise fun x y => x.1 ≠ y.1
  mem_iff : ∀ key item, (key, item) ∈ listed ↔ lookup key = some item

namespace Lists

variable {κ α β : Type} {lookup : κ → Option α} {listed : List (κ × α)}

theorem filterMap (h : Lists lookup listed) (pick : α → Option β) :
    Lists (fun key => (lookup key).bind pick)
      (listed.filterMap fun x => (pick x.2).map (Prod.mk x.1)) where
  apart := by
    rw [List.pairwise_filterMap]
    refine h.apart.imp ?_
    intro x y hne x' hx' y' hy'
    obtain ⟨a, -, rfl⟩ := Option.map_eq_some_iff.1 hx'
    obtain ⟨b, -, rfl⟩ := Option.map_eq_some_iff.1 hy'
    exact hne
  mem_iff key item := by
    rw [List.mem_filterMap, Option.bind_eq_some_iff]
    constructor
    · rintro ⟨⟨k, a⟩, hmem, hpick⟩
      obtain ⟨b, hb, heq⟩ := Option.map_eq_some_iff.1 hpick
      cases heq
      exact ⟨a, (h.mem_iff k a).1 hmem, hb⟩
    · rintro ⟨a, hlookup, hpick⟩
      refine ⟨(key, a), (h.mem_iff key a).2 hlookup, ?_⟩
      rw [hpick]
      rfl

theorem map_snd_filterMap (listed : List (κ × α)) (pick : α → Option β) :
    (listed.filterMap fun x => (pick x.2).map (Prod.mk x.1)).map Prod.snd =
      (listed.map Prod.snd).filterMap pick := by
  rw [List.map_filterMap, List.filterMap_map]
  congr 1
  funext x
  rw [Option.map_map]
  exact Option.map_id'

/-- The members of lists are looked up by the key of their list and their position in it. -/
theorem members (h : Lists lookup listed) (list : α → List β) :
    Lists (fun place : κ × Nat => (lookup place.1).bind fun a => (list a)[place.2]?)
      (listed.flatMap fun x => (list x.2).zipIdx.map fun y => ((x.1, y.2), y.1)) where
  apart := by
    rw [List.pairwise_flatMap]
    constructor
    · intro x hx
      have hindices : ((list x.2).zipIdx.map Prod.snd).Nodup := by
        rw [List.zipIdx_map_snd]
        exact List.nodup_range'
      rw [List.pairwise_map]
      refine (List.pairwise_map.1 hindices).imp ?_
      intro y z hne heq
      exact hne (Prod.mk.inj heq).2
    · refine h.apart.imp ?_
      intro x y hne x' hx' y' hy' heq
      obtain ⟨a, ha, rfl⟩ := List.mem_map.1 hx'
      obtain ⟨b, hb, rfl⟩ := List.mem_map.1 hy'
      exact hne (Prod.mk.inj heq).1
  mem_iff place item := by
    rw [List.mem_flatMap, Option.bind_eq_some_iff]
    constructor
    · rintro ⟨⟨k, a⟩, hmem, hitem⟩
      obtain ⟨⟨b, i⟩, hb, heq⟩ := List.mem_map.1 hitem
      cases heq
      exact ⟨a, (h.mem_iff k a).1 hmem, List.mk_mem_zipIdx_iff_getElem?.1 hb⟩
    · rintro ⟨a, hlookup, hitem⟩
      refine ⟨(place.1, a), (h.mem_iff place.1 a).2 hlookup, ?_⟩
      exact List.mem_map.2 ⟨(item, place.2), List.mk_mem_zipIdx_iff_getElem?.2 hitem, rfl⟩

theorem map_snd_members (listed : List (κ × α)) (list : α → List β) :
    (listed.flatMap fun x => (list x.2).zipIdx.map fun y => ((x.1, y.2), y.1)).map Prod.snd =
      (listed.map Prod.snd).flatMap list := by
  rw [List.map_flatMap, List.flatMap_map]
  congr 1
  funext x
  rw [List.map_map]
  exact List.zipIdx_map_fst 0 (list x.2)

end Lists

/-! ## Paths -/

namespace Element

/-- The elements in the cells of a table, row by row. -/
def children : Element → List Element
  | .table _ rows => rows.flatten.flatten
  | _ => []

/-- The element at the end of a path. -/
def atPath? (elements : List Element) : List Nat → Option Element
  | [] => none
  | [position] => elements[position]?
  | position :: next :: path =>
    elements[position]?.bind fun e => atPath? e.children (next :: path)

theorem sizeOf_flatten_le {α : Type} [SizeOf α] (lists : List (List α)) :
    sizeOf lists.flatten ≤ sizeOf lists := by
  have happend : ∀ xs ys : List α, sizeOf (xs ++ ys) + 1 = sizeOf xs + sizeOf ys := by
    intro xs ys
    induction xs with
    | nil => simp [Nat.add_comm]
    | cons x xs ih =>
      rw [List.cons_append, List.cons.sizeOf_spec, List.cons.sizeOf_spec]
      omega
  induction lists with
  | nil => exact Nat.le_refl _
  | cons list lists ih =>
    have hlist := happend list lists.flatten
    rw [List.flatten_cons, List.cons.sizeOf_spec]
    omega

theorem sizeOf_children_lt (e : Element) (rest : List Element) :
    sizeOf e.children < sizeOf (e :: rest) := by
  rw [List.cons.sizeOf_spec]
  cases e with
  | table b rows =>
    have hcells := sizeOf_flatten_le rows
    have helements := sizeOf_flatten_le rows.flatten
    rw [children, table.sizeOf_spec]
    omega
  | paragraph b p => simp [children]; omega
  | sectionBreak b => simp [children]; omega
  | other b => simp [children]; omega

/-- An element in the cells of the first element. -/
def inFirst (x : List Nat × Element) : List Nat × Element :=
  (0 :: x.1, x.2)

/-- An element with one more element in front. -/
def behindFirst (x : List Nat × Element) : List Nat × Element :=
  (x.1.modifyHead (· + 1), x.2)

/-- All elements with their paths, each one before those in its cells. -/
def outline : List Element → List (List Nat × Element)
  | [] => []
  | e :: rest =>
    ([0], e) :: ((outline e.children).map inFirst ++ (outline rest).map behindFirst)
termination_by elements => sizeOf elements
decreasing_by
  · exact sizeOf_children_lt e rest
  · rw [List.cons.sizeOf_spec]
    omega

theorem atPath?_nil (path : List Nat) : atPath? [] path = none := by
  rcases path with _ | ⟨position, _ | ⟨next, path⟩⟩
  · rfl
  · exact List.getElem?_nil
  · rw [atPath?, List.getElem?_nil, Option.bind_none]

theorem atPath?_zero (e : Element) (rest : List Element) (path : List Nat) :
    atPath? (e :: rest) (0 :: path) = if path = [] then some e else atPath? e.children path := by
  cases path with
  | nil => rfl
  | cons next path => rfl

theorem atPath?_succ (e : Element) (rest : List Element) (position : Nat) (path : List Nat) :
    atPath? (e :: rest) ((position + 1) :: path) = atPath? rest (position :: path) := by
  cases path with
  | nil => rfl
  | cons next path => rfl

theorem outline_cons (e : Element) (rest : List Element) :
    outline (e :: rest) =
      ([0], e) :: ((outline e.children).map inFirst ++ (outline rest).map behindFirst) := by
  rw [outline]

/-- The outline has the element at the end of each path. -/
theorem mem_outline {elements : List Element} {path : List Nat} {e : Element} :
    (path, e) ∈ outline elements ↔ atPath? elements path = some e := by
  fun_induction outline elements generalizing path with
  | case1 =>
    rw [atPath?_nil]
    constructor
    · intro hmem
      exact absurd hmem List.not_mem_nil
    · intro hpath
      cases hpath
  | case2 first rest ihchildren ihrest =>
    -- A path leads to the first element, into its cells, or to what follows it.
    rw [List.mem_cons, List.mem_append, List.mem_map, List.mem_map]
    constructor
    · rintro (heq | ⟨⟨inner, e'⟩, hmem, heq⟩ | ⟨⟨beside, e'⟩, hmem, heq⟩)
      · cases heq
        rfl
      · cases heq
        have hfound := ihchildren.1 hmem
        have hne : inner ≠ [] := by
          rintro rfl
          cases hfound
        rw [atPath?_zero, if_neg hne]
        exact hfound
      · cases heq
        have hfound := ihrest.1 hmem
        cases beside with
        | nil => cases hfound
        | cons position beside =>
          rw [List.modifyHead_cons, atPath?_succ]
          exact hfound
    · intro hfound
      rcases path with _ | ⟨_ | position, path⟩
      · cases hfound
      · rw [atPath?_zero] at hfound
        split at hfound
        · next hpath =>
          cases hfound
          rw [hpath]
          exact .inl rfl
        · exact .inr (.inl ⟨(path, e), ihchildren.2 hfound, rfl⟩)
      · rw [atPath?_succ] at hfound
        exact .inr (.inr ⟨(position :: path, e), ihrest.2 hfound, rfl⟩)

theorem ne_nil_of_mem_outline {elements : List Element} {x : List Nat × Element}
    (h : x ∈ outline elements) : x.1 ≠ [] := by
  intro hnil
  have hfound := mem_outline.1 h
  rw [hnil] at hfound
  cases hfound

/-- A relation holds along an outline when it holds from the first element to those in its cells and
to the others, from those in its cells to the others, and along the two outlines that are left. -/
theorem pairwise_outline_cons {R : List Nat × Element → List Nat × Element → Prop} {e : Element}
    {rest : List Element} (hbelow : ∀ x ∈ outline e.children, R ([0], e) (inFirst x))
    (hbeside : ∀ y ∈ outline rest, R ([0], e) (behindFirst y))
    (hacross : ∀ x ∈ outline e.children, ∀ y ∈ outline rest, R (inFirst x) (behindFirst y))
    (hchildren : (outline e.children).Pairwise fun x y => R (inFirst x) (inFirst y))
    (hrest : (outline rest).Pairwise fun x y => R (behindFirst x) (behindFirst y)) :
    (outline (e :: rest)).Pairwise R := by
  rw [outline_cons, List.pairwise_cons, List.pairwise_append, List.pairwise_map,
    List.pairwise_map]
  refine ⟨?_, hchildren, hrest, ?_⟩
  · intro z hz
    rcases List.mem_append.1 hz with hz | hz
    · obtain ⟨x, hx, rfl⟩ := List.mem_map.1 hz
      exact hbelow x hx
    · obtain ⟨y, hy, rfl⟩ := List.mem_map.1 hz
      exact hbeside y hy
  · intro z hz w hw
    obtain ⟨x, hx, rfl⟩ := List.mem_map.1 hz
    obtain ⟨y, hy, rfl⟩ := List.mem_map.1 hw
    exact hacross x hx y hy

theorem behindFirst_prefix_iff {x y : List Nat × Element} (hx : x.1 ≠ []) (hy : y.1 ≠ []) :
    (behindFirst y).1 <+: (behindFirst x).1 ↔ y.1 <+: x.1 := by
  obtain ⟨i, p, hp⟩ := List.exists_cons_of_ne_nil hx
  obtain ⟨j, q, hq⟩ := List.exists_cons_of_ne_nil hy
  rw [behindFirst, behindFirst, hp, hq, List.modifyHead_cons, List.modifyHead_cons,
    List.cons_prefix_cons, List.cons_prefix_cons, Nat.add_right_cancel_iff]

/-- No element comes behind one in its cells, and none comes twice. -/
theorem pairwise_outline_path (elements : List Element) :
    (outline elements).Pairwise fun x y => ¬ y.1 <+: x.1 := by
  have hhead {y : List Nat × Element} (hy : y.1 ≠ [])
      (path : List Nat) : ¬ (behindFirst y).1 <+: 0 :: path := by
    obtain ⟨j, q, hq⟩ := List.exists_cons_of_ne_nil hy
    rw [behindFirst, hq, List.modifyHead_cons, List.cons_prefix_cons]
    exact fun h => Nat.succ_ne_zero j h.1
  fun_induction outline elements with
  | case1 => exact .nil
  | case2 e rest ihchildren ihrest =>
    rw [← outline_cons]
    apply pairwise_outline_cons
    · intro x hx hprefix
      have hnil := (List.cons_prefix_cons.1 hprefix).2
      exact ne_nil_of_mem_outline hx (List.prefix_nil.1 hnil)
    · intro y hy
      exact hhead (ne_nil_of_mem_outline hy) []
    · intro x hx y hy
      exact hhead (ne_nil_of_mem_outline hy) x.1
    · refine ihchildren.imp ?_
      intro x y hnot hprefix
      exact hnot (List.cons_prefix_cons.1 hprefix).2
    · refine ihrest.imp_of_mem ?_
      intro x y hx hy hnot
      rw [behindFirst_prefix_iff (ne_nil_of_mem_outline hx) (ne_nil_of_mem_outline hy)]
      exact hnot

theorem lists_outline (elements : List Element) : Lists (atPath? elements) (outline elements) where
  apart := by
    refine (pairwise_outline_path elements).imp ?_
    intro x y hnot heq
    exact hnot (heq ▸ List.prefix_refl x.1)
  mem_iff _ _ := mem_outline

/-! ## Paragraphs and tables -/

/-- What a walk picks from each element before it goes into its cells is picked from the outline in
turn. -/
theorem flatMap_eq_filterMap_outline {β : Type} {walk : Element → List β}
    {pick : Element → Option β}
    (hwalk : ∀ e, walk e = (pick e).toList ++ e.children.flatMap walk) (elements : List Element) :
    elements.flatMap walk = (outline elements).filterMap fun x => pick x.2 := by
  fun_induction outline elements with
  | case1 => rfl
  | case2 e rest ihchildren ihrest =>
    rw [List.flatMap_cons, hwalk, ihchildren, ihrest, List.filterMap_cons, List.filterMap_append,
      List.filterMap_map, List.filterMap_map, List.append_assoc]
    cases hpick : pick e with
    | none => rfl
    | some b => rfl

theorem eq_flatMap {α β : Type} {walk : α → List β} {all : List α → List β} (hnil : all [] = [])
    (hcons : ∀ a rest, all (a :: rest) = walk a ++ all rest) : all = List.flatMap walk := by
  funext list
  induction list with
  | nil => exact hnil
  | cons a rest ih => rw [hcons, ih, List.flatMap_cons]

theorem flatMap_flatten {α β : Type} (walk : α → List β) (lists : List (List α)) :
    lists.flatten.flatMap walk = lists.flatMap (List.flatMap walk) := by
  rw [List.flatten_eq_flatMap, List.flatMap_assoc]
  rfl

/-- A walk through the rows of a table goes through the elements in its cells. -/
theorem walk_rows {β : Type} {walk : Element → List β} {ofRow : Row → List β}
    {ofRows : List Row → List β} (hrow : ofRow = List.flatMap (List.flatMap walk))
    (hrows : ofRows = List.flatMap ofRow) (b : Bounds) (rows : List Row) :
    ofRows rows = (table b rows).children.flatMap walk := by
  rw [children, flatMap_flatten, flatMap_flatten, hrows, hrow]

theorem paragraphsOf_eq_flatMap : paragraphsOf = List.flatMap paragraphs :=
  eq_flatMap (by rw [paragraphsOf]) fun e rest => by rw [paragraphsOf]

theorem paragraphs_eq (e : Element) :
    paragraphs e = e.paragraph?.toList ++ e.children.flatMap paragraphs := by
  have hrow : paragraphsOfRow = List.flatMap (List.flatMap paragraphs) := by
    rw [← paragraphsOf_eq_flatMap]
    exact eq_flatMap (by rw [paragraphsOfRow]) fun cell cells => by rw [paragraphsOfRow]
  have hrows : paragraphsOfRows = List.flatMap paragraphsOfRow :=
    eq_flatMap (by rw [paragraphsOfRows]) fun row rows => by rw [paragraphsOfRows]
  cases e with
  | paragraph b p => rw [paragraphs]; rfl
  | table b rows => rw [paragraphs]; exact walk_rows hrow hrows b rows
  | sectionBreak b => rw [paragraphs]; rfl
  | other b => rw [paragraphs]; rfl

theorem tablesOf_eq_flatMap : tablesOf = List.flatMap tables :=
  eq_flatMap (by rw [tablesOf]) fun e rest => by rw [tablesOf]

theorem tables_eq (e : Element) : tables e = e.table?.toList ++ e.children.flatMap tables := by
  have hrow : tablesOfRow = List.flatMap (List.flatMap tables) := by
    rw [← tablesOf_eq_flatMap]
    exact eq_flatMap (by rw [tablesOfRow]) fun cell cells => by rw [tablesOfRow]
  have hrows : tablesOfRows = List.flatMap tablesOfRow :=
    eq_flatMap (by rw [tablesOfRows]) fun row rows => by rw [tablesOfRows]
  cases e with
  | paragraph b p => rw [tables]; rfl
  | table b rows =>
    rw [tables]
    exact congrArg (Table.mk b rows :: ·) (walk_rows hrow hrows b rows)
  | sectionBreak b => rw [tables]; rfl
  | other b => rw [tables]; rfl

theorem paragraphsOf_eq_filterMap (elements : List Element) :
    paragraphsOf elements = (outline elements).filterMap fun x => x.2.paragraph? := by
  rw [paragraphsOf_eq_flatMap]
  exact flatMap_eq_filterMap_outline paragraphs_eq elements

theorem tablesOf_eq_filterMap (elements : List Element) :
    tablesOf elements = (outline elements).filterMap fun x => x.2.table? := by
  rw [tablesOf_eq_flatMap]
  exact flatMap_eq_filterMap_outline tables_eq elements

/-- The elements whose path has one position are those that stand side by side. -/
theorem outline_of_length_one (elements : List Element) :
    ((outline elements).filter fun x => x.1.length == 1).map Prod.snd = elements := by
  fun_induction outline elements with
  | case1 => rfl
  | case2 e rest ihchildren ihrest =>
    have hchildren : ((outline e.children).map inFirst).filter (fun x => x.1.length == 1) = [] := by
      rw [List.filter_eq_nil_iff]
      intro z hz
      obtain ⟨x, hx, rfl⟩ := List.mem_map.1 hz
      simpa [inFirst] using ne_nil_of_mem_outline hx
    have hrest : ((outline rest).map behindFirst).filter (fun x => x.1.length == 1) =
        ((outline rest).filter fun x => x.1.length == 1).map behindFirst := by
      rw [List.filter_map]
      simp only [Function.comp_def, behindFirst, List.length_modifyHead]
    rw [List.filter_cons_of_pos rfl, List.filter_append, hchildren, hrest, List.nil_append,
      List.map_cons, List.map_map]
    exact congrArg (e :: ·) ihrest

end Element

end Redline
