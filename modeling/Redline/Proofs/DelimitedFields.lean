import Redline.Proofs.PipeTable
import Redline.Proofs.Quoting

/-!
# Fields as they are written

Fields are written with a backslash before each delimiter in them, and with a delimiter between one
field and the next.  Splitting and writing undo each other.  Writing the fields of a text gives back
the text, whatever the delimiter is.  Splitting what was written gives back the fields exactly when
there is a field and none but the last ends in a backslash; the delimiter must not be a backslash
itself.  For these are the lists of fields that splitting comes up with.
-/

namespace Redline.Delimited

variable {delimiter : Char}

/-- A field with a backslash before each delimiter. -/
def escaped (delimiter : Char) (field : Text) : Text :=
  field.flatMap fun c => if c = delimiter then ['\\', delimiter] else [c]

/-- The text of fields: each one escaped, and a delimiter between two of them. -/
def written (delimiter : Char) (fields : List Text) : Text :=
  Text.join [delimiter] (fields.map (escaped delimiter))

/-- No field but the last ends in a backslash. -/
def Separable (fields : List Text) : Prop :=
  ∀ field ∈ fields.dropLast, field.getLast? ≠ some '\\'

instance (fields : List Text) : Decidable (Separable fields) :=
  inferInstanceAs (Decidable (∀ field ∈ fields.dropLast, field.getLast? ≠ some '\\'))

theorem escaped_cons_delimiter (field : Text) :
    escaped delimiter (delimiter :: field) = '\\' :: delimiter :: escaped delimiter field := by
  rw [escaped, List.flatMap_cons, if_pos rfl]
  rfl

theorem escaped_cons_of_ne {c : Char} (h : c ≠ delimiter) (field : Text) :
    escaped delimiter (c :: field) = c :: escaped delimiter field := by
  rw [escaped, List.flatMap_cons, if_neg h]
  rfl

theorem escaped_append (front back : Text) :
    escaped delimiter (front ++ back) = escaped delimiter front ++ escaped delimiter back :=
  List.flatMap_append

theorem written_singleton (field : Text) : written delimiter [field] = escaped delimiter field :=
  Text.join_singleton _ _

theorem written_cons (field : Text) {fields : List Text} (h : fields ≠ []) :
    written delimiter (field :: fields) =
      escaped delimiter field ++ delimiter :: written delimiter fields := by
  rw [written, List.map_cons, Text.join_cons _ _ (by simpa using h)]
  rfl

/-! ## Writing what was split -/

theorem exists_prepend (c : Char) (fields : List Text) :
    ∃ field rest, prepend c fields = (c :: field) :: rest := by
  cases fields with
  | nil => exact ⟨[], [], rfl⟩
  | cons field rest => exact ⟨field, rest, rfl⟩

theorem prepend_ne_nil (c : Char) (fields : List Text) : prepend c fields ≠ [] := by
  obtain ⟨field, rest, h⟩ := exists_prepend c fields
  rw [h]
  exact List.cons_ne_nil _ _

theorem split_ne_nil (delimiter : Char) (t : Text) : split delimiter t ≠ [] := by
  fun_induction split delimiter t with
  | case1 => exact List.cons_ne_nil _ _
  | case2 => exact List.cons_ne_nil _ _
  | case3 => exact List.cons_ne_nil _ _
  | case4 => exact prepend_ne_nil _ _
  | case5 => exact List.cons_ne_nil _ _
  | case6 => exact prepend_ne_nil _ _

/-- A character in front of the first field is written in front of the text. -/
theorem written_prepend (c : Char) {fields : List Text} (h : fields ≠ []) :
    written delimiter (prepend c fields) = escaped delimiter [c] ++ written delimiter fields := by
  have hfield : ∀ field, escaped delimiter (c :: field) =
      escaped delimiter [c] ++ escaped delimiter field :=
    escaped_append [c]
  obtain ⟨field, rest, rfl⟩ := List.exists_cons_of_ne_nil h
  rw [prepend]
  by_cases hrest : rest = []
  · rw [hrest, written_singleton, written_singleton, hfield]
  · rw [written_cons _ hrest, written_cons _ hrest, hfield, List.append_assoc]

theorem written_split (delimiter : Char) (t : Text) :
    written delimiter (split delimiter t) = t := by
  have hnil : written delimiter [[]] = [] := written_singleton []
  fun_induction split delimiter t with
  | case1 => exact hnil
  | case2 c hc =>
    rw [written_cons [] (List.cons_ne_nil _ _), hnil, eq_of_beq hc]
    rfl
  | case3 c hc =>
    rw [written_singleton, escaped_cons_of_ne (by simpa using hc)]
    rfl
  | case4 c e rest hescaped ih =>
    simp only [Bool.and_eq_true, beq_iff_eq] at hescaped
    rw [written_prepend _ (split_ne_nil _ _), ih, escaped_cons_delimiter, hescaped.1, hescaped.2]
    rfl
  | case5 c e rest hescaped hc ih =>
    rw [written_cons [] (split_ne_nil _ _), ih, eq_of_beq hc]
    rfl
  | case6 c e rest hescaped hc ih =>
    rw [written_prepend _ (split_ne_nil _ _), ih, escaped_cons_of_ne (by simpa using hc)]
    rfl

/-! ## Splitting what was written -/

theorem prepend_eq_modifyHead (c : Char) {fields : List Text} (h : fields ≠ []) :
    prepend c fields = fields.modifyHead (c :: ·) := by
  obtain ⟨field, rest, rfl⟩ := List.exists_cons_of_ne_nil h
  rfl

theorem head?_escaped_append_ne (hdelimiter : delimiter ≠ '\\') {field : Text} (h : field ≠ [])
    (rest : Text) : (escaped delimiter field ++ rest).head? ≠ some delimiter := by
  obtain ⟨c, field, rfl⟩ := List.exists_cons_of_ne_nil h
  by_cases hc : c = delimiter
  · rw [hc, escaped_cons_delimiter]
    exact fun hhead => hdelimiter (Option.some.inj hhead).symm
  · rw [escaped_cons_of_ne hc]
    exact fun hhead => hc (Option.some.inj hhead)

/-- An escaped field is read back in front of what follows it, unless its last backslash would be
taken for the escape of a delimiter. -/
theorem split_escaped_append (hdelimiter : delimiter ≠ '\\') {field rest : Text}
    (h : field.getLast? = some '\\' → rest.head? ≠ some delimiter) :
    split delimiter (escaped delimiter field ++ rest) =
      (split delimiter rest).modifyHead (field ++ ·) := by
  induction field with
  | nil =>
    have hid : ([] ++ · : Text → Text) = id := rfl
    rw [hid, List.modifyHead_id]
    rfl
  | cons c field ih =>
    have hrest := ih fun hlast => h (by rw [List.getLast?_cons, hlast]; rfl)
    have hcons : prepend c (split delimiter (escaped delimiter field ++ rest)) =
        (split delimiter rest).modifyHead (c :: field ++ ·) := by
      rw [prepend_eq_modifyHead _ (split_ne_nil _ _), hrest, List.modifyHead_modifyHead]
      rfl
    by_cases hc : c = delimiter
    · subst hc
      rw [escaped_cons_delimiter, List.cons_append, List.cons_append, split_escaped, hcons]
    · have hnext : c = '\\' → (escaped delimiter field ++ rest).head? ≠ some delimiter := by
        intro hslash
        by_cases hfield : field = []
        · subst hfield
          exact h (congrArg some hslash)
        · exact head?_escaped_append_ne hdelimiter hfield rest
      rw [escaped_cons_of_ne hc, List.cons_append, split_cons hc hnext, hcons]

theorem split_written (hdelimiter : delimiter ≠ '\\') {fields : List Text} (hne : fields ≠ [])
    (h : Separable fields) : split delimiter (written delimiter fields) = fields := by
  induction fields with
  | nil => exact absurd rfl hne
  | cons field rest ih =>
    by_cases hrest : rest = []
    · subst hrest
      rw [written_singleton, ← List.append_nil (escaped delimiter field),
        split_escaped_append hdelimiter fun _ => by simp]
      exact congrArg ([·]) (List.append_nil field)
    · have hdropLast : (field :: rest).dropLast = field :: rest.dropLast :=
        List.dropLast_cons_of_ne_nil hrest
      rw [Separable, hdropLast, List.forall_mem_cons] at h
      rw [written_cons field hrest,
        split_escaped_append hdelimiter fun hlast => absurd hlast h.1,
        split_delimiter hdelimiter, ih hrest h.2]
      exact congrArg (· :: rest) (List.append_nil field)

/-! ## The fields of a text -/

theorem separable_singleton (field : Text) : Separable [field] :=
  fun _ hmem => absurd hmem List.not_mem_nil

/-- A character may stand in front of the fields, but not a backslash in front of an empty one. -/
theorem separable_prepend {c : Char} {fields : List Text} (h : Separable fields)
    (hc : c = '\\' → fields.head? ≠ some []) : Separable (prepend c fields) := by
  cases fields with
  | nil => exact separable_singleton [c]
  | cons field rest =>
    by_cases hrest : rest = []
    · subst hrest
      exact separable_singleton (c :: field)
    · rw [Separable, List.dropLast_cons_of_ne_nil hrest, List.forall_mem_cons] at h
      rw [prepend, Separable, List.dropLast_cons_of_ne_nil hrest, List.forall_mem_cons]
      refine ⟨?_, h.2⟩
      by_cases hfield : field = []
      · subst hfield
        exact fun hlast => hc (Option.some.inj hlast) rfl
      · rw [List.getLast?_cons_of_ne_nil hfield]
        exact h.1

/-- Only a delimiter ends a field before its first character. -/
theorem head?_split_ne {c : Char} (h : c ≠ delimiter) (rest : Text) :
    (split delimiter (c :: rest)).head? ≠ some [] := by
  have hprepend : ∀ (e : Char) (fields : List Text), (prepend e fields).head? ≠ some [] := by
    intro e fields
    obtain ⟨field, more, hfields⟩ := exists_prepend e fields
    rw [hfields]
    exact fun hhead => List.cons_ne_nil _ _ (Option.some.inj hhead)
  by_cases hescape : c = '\\' → rest.head? ≠ some delimiter
  · rw [split_cons h hescape]
    exact hprepend _ _
  · rw [Classical.not_imp, not_not] at hescape
    obtain ⟨rest, rfl⟩ := List.head?_eq_some_iff.1 hescape.2
    rw [hescape.1, split_escaped]
    exact hprepend _ _

theorem separable_split (hdelimiter : delimiter ≠ '\\') (t : Text) :
    Separable (split delimiter t) := by
  fun_induction split delimiter t with
  | case1 => exact separable_singleton []
  | case2 c hc => exact List.forall_mem_singleton.2 (by simp)
  | case3 c hc => exact separable_singleton [c]
  | case4 c e rest hescaped ih => exact separable_prepend ih fun h => absurd h hdelimiter
  | case5 c e rest hescaped hc ih =>
    rw [Separable, List.dropLast_cons_of_ne_nil (split_ne_nil _ _)]
    exact List.forall_mem_cons.2 ⟨by simp, ih⟩
  | case6 c e rest hescaped hc ih =>
    refine separable_prepend ih fun hslash => head?_split_ne ?_ rest
    intro he
    exact hescaped (by rw [hslash, he, beq_self_eq_true, beq_self_eq_true]; rfl)

/-- Writing undoes splitting for every delimiter.  Splitting undoes writing exactly when there is a
field and none but the last ends in a backslash. -/
theorem split_and_written_inverse (delimiter : Char) :
    (∀ t, written delimiter (split delimiter t) = t) ∧
      (delimiter ≠ '\\' → ∀ fields, split delimiter (written delimiter fields) = fields ↔
        fields ≠ [] ∧ ∀ field ∈ fields.dropLast, field.getLast? ≠ some '\\') := by
  refine ⟨written_split delimiter, fun hdelimiter fields => ⟨fun h => ?_, fun h => ?_⟩⟩
  · rw [← h]
    exact ⟨split_ne_nil delimiter _, separable_split hdelimiter _⟩
  · exact split_written hdelimiter h.1 h.2

/-- A delimiter behind a backslash in a field, an empty field, and a last field that ends in a
backslash come back. -/
theorem split_and_written_inverse_slash :
    '/' ≠ '\\' ∧ split '/' (written '/' ["a\\/b".toList, [], "c\\".toList]) =
      ["a\\/b".toList, [], "c\\".toList] := by
  have hslash : '/' ≠ '\\' := by decide
  refine ⟨hslash, ?_⟩
  exact ((split_and_written_inverse '/').2 hslash _).2 (by decide)

end Redline.Delimited
