import Mathlib.Data.Bool.AllAny
import Mathlib.Data.List.Nodup
import Redline.Proofs.Replacing
import Redline.Proofs.Run
import Redline.Session.Commands

/-!
# Transliteration

A transliteration is sent as exchanges of one character each, which the service carries out one
after another, so a later exchange may take up what an earlier one has written.  When no character
that is written is exchanged, the exchanges have the effect of all of them at once.  Otherwise each
character is exchanged for a placeholder first, and then each placeholder for what is to be written,
and both rounds are of the first kind.
-/

namespace Redline

namespace Text

/-- The text with one character exchanged for another one throughout. -/
def exchange (t : Text) (pair : Char × Char) : Text :=
  replaceAll [pair.1] [pair.2] t

/-- The text after exchanges that are made one after another. -/
def exchangeAll (t : Text) (pairs : List (Char × Char)) : Text :=
  pairs.foldl exchange t

/-- The number of places of each exchange when they are made one after another. -/
def exchangeCounts : Text → List (Char × Char) → List Nat
  | _, [] => []
  | t, pair :: rest => t.count pair.1 :: exchangeCounts (t.exchange pair) rest

/-- The character that stands for a character of the source: the one in the destination where the
character first stands in the source. -/
def translateChar (source dest : Text) (c : Char) : Char :=
  if c ∈ source then dest[source.idxOf c]?.getD c else c

/-- The text with all characters of the source replaced at once. -/
def translate (t source dest : Text) : Text :=
  t.map (translateChar source dest)

/-! ## Exchanges one after another -/

theorem exchange_eq_map (t : Text) (pair : Char × Char) :
    t.exchange pair = t.map fun c => if c = pair.1 then pair.2 else c := by
  rw [exchange, replaceAll_singleton, List.map_eq_flatMap]
  apply List.flatMap_congr
  intro c _
  split
  · rfl
  · rfl

theorem exchangeAll_append (t : Text) (xs ys : List (Char × Char)) :
    t.exchangeAll (xs ++ ys) = (t.exchangeAll xs).exchangeAll ys :=
  List.foldl_append

theorem exchangeCounts_append (t : Text) (xs ys : List (Char × Char)) :
    t.exchangeCounts (xs ++ ys) = t.exchangeCounts xs ++ (t.exchangeAll xs).exchangeCounts ys := by
  induction xs generalizing t with
  | nil => rfl
  | cons pair rest ih =>
    rw [List.cons_append, exchangeCounts, exchangeCounts, ih, List.cons_append]
    rfl

theorem length_exchangeCounts (t : Text) (pairs : List (Char × Char)) :
    (t.exchangeCounts pairs).length = pairs.length := by
  induction pairs generalizing t with
  | nil => rfl
  | cons pair rest ih => rw [exchangeCounts, List.length_cons, List.length_cons, ih]

theorem translateChar_cons_self (a b : Char) (source dest : Text) :
    translateChar (a :: source) (b :: dest) a = b := by
  rw [translateChar, if_pos List.mem_cons_self, List.idxOf_cons_self]
  rfl

theorem translateChar_cons_of_ne {a c : Char} (h : c ≠ a) (b : Char) (source dest : Text) :
    translateChar (a :: source) (b :: dest) c = translateChar source dest c := by
  have hmem : c ∈ a :: source ↔ c ∈ source := by simp [h]
  simp only [translateChar, hmem, List.idxOf_cons_ne source (Ne.symm h), List.getElem?_cons_succ]

theorem translateChar_of_notMem {source : Text} {c : Char} (h : c ∉ source) (dest : Text) :
    translateChar source dest c = c :=
  if_neg h

/-- When nothing that is written is exchanged, the exchanges act as all of them at once. -/
theorem exchangeAll_zip
    {source dest : Text} (hlength : source.length = dest.length)
    (hfresh : ∀ d ∈ dest, d ∉ source) (t : Text) :
    t.exchangeAll (source.zip dest) = t.translate source dest := by
  induction source generalizing dest t with
  | nil =>
    have hid : translateChar [] dest = id := by
      funext c
      exact translateChar_of_notMem List.not_mem_nil dest
    rw [translate, hid, List.map_id]
    rfl
  | cons a source ih =>
    obtain ⟨b, dest, rfl⟩ := List.exists_cons_of_length_eq_add_one hlength.symm
    have hb : b ∉ source := fun h => hfresh b List.mem_cons_self (List.mem_cons_of_mem a h)
    have hrest := @ih dest (by simpa using hlength) fun d hd h =>
      hfresh d (List.mem_cons_of_mem b hd) (List.mem_cons_of_mem a h)
    have hstep : t.exchangeAll ((a :: source).zip (b :: dest)) =
        (t.exchange (a, b)).exchangeAll (source.zip dest) := rfl
    rw [hstep, hrest, exchange_eq_map, translate, translate, List.map_map]
    apply List.map_congr_left
    intro c _
    rw [Function.comp_apply]
    by_cases hc : c = a
    · rw [if_pos hc, hc, translateChar_of_notMem hb, translateChar_cons_self]
    · rw [if_neg hc, translateChar_cons_of_ne hc]

/-- What the first exchange has written is not counted again. -/
theorem count_add_countP_exchanged {a b : Char} {source : Text} (hb : b ∉ source) (t : Text) :
    t.count a + t.countP (source.contains ∘ fun c => if c = a then b else c) =
      t.countP (a :: source).contains := by
  induction t with
  | nil => rfl
  | cons c t ih =>
    rw [List.count_cons, List.countP_cons, List.countP_cons, ← ih]
    by_cases hc : c = a
    · subst hc
      simp [hb]
      omega
    · simp [hc]
      omega

/-- When nothing that is written is exchanged, every character of the source is counted once. -/
theorem foldl_exchangeCounts_zip
    {source dest : Text} (hlength : source.length = dest.length)
    (hfresh : ∀ d ∈ dest, d ∉ source) (t : Text) (n : Nat) :
    (t.exchangeCounts (source.zip dest)).foldl (· + ·) n = n + t.countP source.contains := by
  induction source generalizing dest t n with
  | nil => simp [exchangeCounts]
  | cons a source ih =>
    obtain ⟨b, dest, rfl⟩ := List.exists_cons_of_length_eq_add_one hlength.symm
    have hb : b ∉ source := fun h => hfresh b List.mem_cons_self (List.mem_cons_of_mem a h)
    have hrest := @ih dest (by simpa using hlength) fun d hd h =>
      hfresh d (List.mem_cons_of_mem b hd) (List.mem_cons_of_mem a h)
    have hstep : t.exchangeCounts ((a :: source).zip (b :: dest)) =
        t.count a :: (t.exchange (a, b)).exchangeCounts (source.zip dest) := rfl
    rw [hstep, List.foldl_cons, hrest, exchange_eq_map, List.countP_map, Nat.add_assoc]
    congr 1
    exact count_add_countP_exchanged hb t

/-! ## Placeholders -/

/-- The placeholders of so many characters. -/
def placeholders (n : Nat) : Text :=
  (List.range n).map fun i => Char.ofNat (placeholderBase + i)

/-- The character is one of so many placeholders. -/
def IsPlaceholder (n : Nat) (c : Char) : Prop :=
  placeholderBase ≤ c.toNat ∧ c.toNat < placeholderBase + n

instance (n : Nat) (c : Char) : Decidable (IsPlaceholder n c) :=
  inferInstanceAs (Decidable (_ ∧ _))

/-- The number of code points for private use from the first placeholder on. -/
def placeholderLimit : Nat := 6400

theorem toNat_placeholder {i : Nat} (h : i < placeholderLimit) :
    (Char.ofNat (placeholderBase + i)).toNat = placeholderBase + i := by
  have hvalid : (placeholderBase + i).isValidChar := by
    rw [placeholderLimit] at h
    rw [placeholderBase]
    exact .inr ⟨by omega, by omega⟩
  rw [Char.ofNat, dif_pos hvalid]
  rfl

theorem isPlaceholder_of_mem
    {n : Nat} (hn : n ≤ placeholderLimit) {c : Char} (h : c ∈ placeholders n) :
    IsPlaceholder n c := by
  obtain ⟨i, hi, rfl⟩ := List.mem_map.1 h
  have hi := List.mem_range.1 hi
  rw [IsPlaceholder, toNat_placeholder (by omega)]
  omega

theorem nodup_placeholders {n : Nat} (hn : n ≤ placeholderLimit) : (placeholders n).Nodup := by
  apply List.Nodup.map_on
  · intro i hi j hj heq
    have hi := List.mem_range.1 hi
    have hj := List.mem_range.1 hj
    have hcodes := congrArg Char.toNat heq
    rw [toNat_placeholder (by omega), toNat_placeholder (by omega)] at hcodes
    omega
  · exact List.nodup_range

@[simp]
theorem length_placeholders (n : Nat) : (placeholders n).length = n := by
  simp [placeholders]

/-- Through the placeholders a character comes to the one that stands for it. -/
theorem translateChar_placeholders
    {source dest : Text} (hlength : source.length = dest.length)
    (hlimit : source.length ≤ placeholderLimit) {c : Char} (hc : ¬ IsPlaceholder source.length c) :
    translateChar (placeholders source.length) dest
        (translateChar source (placeholders source.length) c) =
      translateChar source dest c := by
  by_cases hmem : c ∈ source
  · have hi := List.idxOf_lt_length_of_mem hmem
    have hp : source.idxOf c < (placeholders source.length).length := by
      rwa [length_placeholders]
    have hd : source.idxOf c < dest.length := hlength ▸ hi
    have hindex := (nodup_placeholders hlimit).idxOf_getElem (source.idxOf c) hp
    have hfirst : translateChar source (placeholders source.length) c =
        (placeholders source.length)[source.idxOf c] := by
      rw [translateChar, if_pos hmem, List.getElem?_eq_getElem hp, Option.getD_some]
    rw [hfirst, translateChar, if_pos (List.getElem_mem hp), hindex, translateChar, if_pos hmem,
      List.getElem?_eq_getElem hd, Option.getD_some, Option.getD_some]
  · rw [translateChar_of_notMem hmem, translateChar_of_notMem hmem]
    exact translateChar_of_notMem (fun h => hc (isPlaceholder_of_mem hlimit h)) dest

end Text

section Pairs

variable {source dest t : Text}

/-- The pairs of a transliteration: one round of exchanges when no character comes back, or two by way
of the placeholders. -/
theorem transliterationPairs_cases (source dest : Text) :
    (∀ d ∈ dest, d ∉ source) ∧ transliterationPairs source dest = source.zip dest ∨
      transliterationPairs source dest = source.zip (Text.placeholders source.length) ++
        (Text.placeholders source.length).zip dest := by
  rw [transliterationPairs]
  by_cases hshared : source.any dest.contains = true
  · rw [if_pos hshared]
    exact .inr rfl
  · rw [if_neg hshared]
    refine .inl ⟨fun d hdest hsource => hshared ?_, rfl⟩
    exact List.any_eq_true.2 ⟨d, hsource, List.contains_iff_mem.2 hdest⟩

theorem transliterationPairs_ne_nil
    (hlength : source.length = dest.length) (hpos : 1 ≤ source.length) :
    transliterationPairs source dest ≠ [] := by
  have hzip : ∀ other : Text, source.length = other.length → source.zip other ≠ [] := by
    intro other hother hnil
    have hempty := congrArg List.length hnil
    rw [List.length_zip, List.length_nil] at hempty
    omega
  rcases transliterationPairs_cases source dest with ⟨-, hpairs⟩ | hpairs
  · rw [hpairs]
    exact hzip dest hlength
  · rw [hpairs]
    exact List.append_ne_nil_of_left_ne_nil (hzip _ (Text.length_placeholders _).symm) _

/-- The pairs, carried out one after another, replace all characters at once, and those of the first
round count the characters that are replaced. -/
theorem exchangeAll_transliterationPairs
    (hlength : source.length = dest.length) (hlimit : source.length ≤ Text.placeholderLimit)
    (hsource : ∀ c ∈ source, ¬ Text.IsPlaceholder source.length c)
    (hdest : ∀ c ∈ dest, ¬ Text.IsPlaceholder source.length c)
    (ht : ∀ c ∈ t, ¬ Text.IsPlaceholder source.length c) :
    t.exchangeAll (transliterationPairs source dest) = t.translate source dest ∧
      ((t.exchangeCounts (transliterationPairs source dest)).take source.length).foldl (· + ·) 0 =
        t.countP source.contains := by
  have hplaces := Text.length_placeholders source.length
  rcases transliterationPairs_cases source dest with ⟨hfresh, hpairs⟩ | hpairs
  · have htake : (t.exchangeCounts (source.zip dest)).take source.length =
        t.exchangeCounts (source.zip dest) := by
      apply List.take_of_length_le
      rw [Text.length_exchangeCounts, List.length_zip]
      omega
    rw [hpairs, htake, Text.foldl_exchangeCounts_zip hlength hfresh, Nat.zero_add]
    exact ⟨Text.exchangeAll_zip hlength hfresh t, rfl⟩
  · have hfirst : ∀ d ∈ Text.placeholders source.length, d ∉ source := fun d hd hmem =>
      hsource d hmem (Text.isPlaceholder_of_mem hlimit hd)
    have hsecond : ∀ d ∈ dest, d ∉ Text.placeholders source.length := fun d hd hmem =>
      hdest d hd (Text.isPlaceholder_of_mem hlimit hmem)
    have hround : (t.exchangeCounts (source.zip (Text.placeholders source.length))).length =
        source.length := by
      rw [Text.length_exchangeCounts, List.length_zip, hplaces, Nat.min_self]
    rw [hpairs]
    constructor
    · rw [Text.exchangeAll_append, Text.exchangeAll_zip hplaces.symm hfirst,
        Text.exchangeAll_zip (hplaces.trans hlength) hsecond, Text.translate, Text.translate,
        Text.translate, List.map_map]
      apply List.map_congr_left
      intro c hc
      exact Text.translateChar_placeholders hlength hlimit (ht c hc)
    · rw [Text.exchangeCounts_append, List.take_left' hround,
        Text.foldl_exchangeCounts_zip hplaces.symm hfirst, Nat.zero_add]

end Pairs

/-! ## The command -/

/-- The service keeps a text and exchanges characters in it: the exchanges of a batch are made one
after another, and each reply tells the number of places. -/
structure Service.Exchanges {σ : Type} (service : Service σ) (view : σ → Text) : Prop where
  update : ∀ pairs state, ∃ replies state',
    service.update (pairs.map fun pair => .replaceAllText [pair.1] [pair.2] true false) state =
        (.ok ⟨replies⟩, state') ∧
      view state' = (view state).exchangeAll pairs ∧
      replies.map (·.replaced) = ((view state).exchangeCounts pairs).map Int.ofNat

theorem Response.occurrences_of_counts
    {replies : List Reply} {counts : List Nat}
    (h : replies.map (·.replaced) = counts.map Int.ofNat) :
    occurrences ⟨replies⟩ = Int.ofNat (counts.foldl (· + ·) 0) := by
  have hfold : ∀ (counts : List Nat) (n : Nat),
      (counts.map Int.ofNat).foldl (· + ·) (Int.ofNat n) =
        Int.ofNat (counts.foldl (· + ·) n) := by
    intro counts
    induction counts with
    | nil => exact fun _ => rfl
    | cons count rest ih => exact fun n => ih (n + count)
  calc
    occurrences ⟨replies⟩ = (replies.map (·.replaced)).foldl (· + ·) 0 := List.foldl_map.symm
    _ = Int.ofNat (counts.foldl (· + ·) 0) := by
      rw [h]
      exact hfold counts 0

/-- A request to exchange one character for another one. -/
def Request.exchanged? : Request → Option (Char × Char)
  | .replaceAllText [a] [b] true false => some (a, b)
  | _ => none

/-- A service that keeps a text.  It takes the batches that exchange characters. -/
def Service.ofText : Service Text where
  fetch t := (.ok {}, t)
  update requests t :=
    match requests.mapM Request.exchanged? with
    | some pairs =>
      (.ok ⟨(t.exchangeCounts pairs).map fun n => { replaced := Int.ofNat n }⟩,
        t.exchangeAll pairs)
    | none => (.error (.http (some 400) []), t)

theorem Service.exchanges_ofText : Service.ofText.Exchanges id := by
  refine ⟨fun pairs t => ?_⟩
  have hpairs : (pairs.map fun pair =>
      Request.replaceAllText [pair.1] [pair.2] true false).mapM Request.exchanged? =
        some pairs := by
    induction pairs with
    | nil => rfl
    | cons pair rest ih => simp [Request.exchanged?, ih]
  refine ⟨(t.exchangeCounts pairs).map fun n => { replaced := Int.ofNat n }, t.exchangeAll pairs,
    by simp only [ofText, hpairs], rfl, ?_⟩
  rw [List.map_map]
  rfl

namespace Session

variable {σ : Type} {s : Session σ} {view : σ → Text} {e : Expression} {w : World σ}

/-- A transliteration replaces all characters of its source at once: the exchanges that it sends,
carried out one after another, put the character of the destination in the place of each character
of the source, by its first position, and leave every other character alone.  The first round of
exchanges counts just the characters of the text that are in the source, and that is the number
that the command reports. -/
theorem transliterate_acts_at_once
    (hs : s.service.Exchanges view) (hlength : e.pattern.length = e.replacement.length)
    (hpos : 1 ≤ e.pattern.length) (hlimit : e.pattern.length ≤ 6400)
    (hsource : ∀ c ∈ e.pattern, ¬ Text.IsPlaceholder e.pattern.length c)
    (hdest : ∀ c ∈ e.replacement, ¬ Text.IsPlaceholder e.pattern.length c)
    (htext : ∀ c ∈ view w.state, ¬ Text.IsPlaceholder e.pattern.length c) :
    (view w.state).exchangeAll (transliterationPairs e.pattern e.replacement) =
        (view w.state).translate e.pattern e.replacement ∧
      (((view w.state).exchangeCounts (transliterationPairs e.pattern e.replacement)).take
        e.pattern.length).foldl (· + ·) 0 = (view w.state).countP e.pattern.contains ∧
      ∃ w', (transliterate e).execute s w =
          (.ok [("transliterated", .text (Text.ofNat ((view w.state).countP e.pattern.contains) ++
            " chars across ".toList ++ Text.ofNat e.pattern.length ++ " pairs".toList))], w') ∧
        view w'.state = (view w.state).translate e.pattern e.replacement := by
  obtain ⟨hall, hcount⟩ :=
    exchangeAll_transliterationPairs hlength hlimit hsource hdest htext
  obtain ⟨replies, state', hupdate, hview, hreplies⟩ :=
    hs.update (transliterationPairs e.pattern e.replacement) w.state
  have hne : (transliterationPairs e.pattern e.replacement).map (fun pair =>
      Request.replaceAllText [pair.1] [pair.2] true false) ≠ [] :=
    mt List.map_eq_nil_iff.1 (transliterationPairs_ne_nil hlength hpos)
  obtain ⟨w', hrun, hstate⟩ := Run.execute_update hne hupdate
  refine ⟨hall, hcount, w', ?_, ?_⟩
  · have htake : (replies.take e.pattern.length).map (·.replaced) =
        (((view w.state).exchangeCounts (transliterationPairs e.pattern e.replacement)).take
          e.pattern.length).map Int.ofNat := by
      rw [List.map_take, hreplies, List.map_take]
    have hoccurrences := Response.occurrences_of_counts htake
    rw [hcount] at hoccurrences
    unfold transliterate
    rw [Run.execute_bind_of_ok hrun]
    simp only [hoccurrences]
    rfl
  · rw [hstate, hview, hall]

/-- A session on a service that keeps a text. -/
def textSession : Session Text where
  service := .ofText
  settings := {}

/-- Exchange two letters for each other; the second place of a letter in the source is idle. -/
def letterSwap : Expression where
  command := .transliterate
  pattern := "aba".toList
  replacement := "bac".toList
  raw := "y/aba/bac/".toList

/-- Letters are swapped in a text, where exchanges without placeholders would make them all one. -/
theorem transliterate_swaps_letters :
    Text.exchangeAll "xaybz".toList [('a', 'b'), ('b', 'a'), ('a', 'c')] = "xcycz".toList ∧
      ∃ w', (transliterate letterSwap).execute textSession { state := "xaybz".toList } =
          (.ok [("transliterated", .text "2 chars across 3 pairs".toList)], w') ∧
        w'.state = "xbyaz".toList := by
  have hsource : ∀ c ∈ letterSwap.pattern, ¬ Text.IsPlaceholder letterSwap.pattern.length c :=
    List.all_iff_forall_prop.1 (by decide)
  have hdest : ∀ c ∈ letterSwap.replacement, ¬ Text.IsPlaceholder letterSwap.pattern.length c :=
    List.all_iff_forall_prop.1 (by decide)
  have htext : ∀ c ∈ "xaybz".toList, ¬ Text.IsPlaceholder letterSwap.pattern.length c :=
    List.all_iff_forall_prop.1 (by decide)
  refine ⟨rfl, ?_⟩
  exact (transliterate_acts_at_once (s := textSession) (e := letterSwap)
    (w := { state := "xaybz".toList }) Service.exchanges_ofText rfl (by decide) (by decide) hsource
    hdest htext).2.2

end Session

end Redline
