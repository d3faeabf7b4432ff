import Redline.Proofs.PipeTable
import Redline.Request.Styling
import Redline.Request.Writer

/-!
# The masks of text styles

A request for a text style sends settings together with a mask of the fields that they are about,
and a field of the mask without a setting is cleared.  The two are made side by side, and only the
branches that make them keep them in step.  Each branch does: it names the fields that it sets.  So
the mask of formats and of directives names exactly the fields that are set, each once, however
often they were set; only the request that clears the old style has a mask and no settings.
-/

namespace Redline

namespace TextField

theorem name_injective {f g : TextField} (h : f.name = g.name) : f = g := by
  cases f <;> cases g <;> first | rfl | exact absurd h (by decide)

theorem comma_not_mem_name (f : TextField) : ',' ∉ f.name.toList := by
  cases f <;> decide

theorem nodup_eraseDups (fields : List TextField) : fields.eraseDups.Nodup := by
  cases fields with
  | nil => exact List.nodup_nil
  | cons f rest =>
    rw [List.eraseDups_cons, List.nodup_cons, List.mem_eraseDups]
    exact ⟨by simp, nodup_eraseDups (rest.filter fun g => !g == f)⟩
termination_by fields.length
decreasing_by exact Nat.lt_succ_of_le (List.length_filter_le _ rest)

theorem eraseDups_concat (fields : List TextField) (f : TextField) :
    (fields ++ [f]).eraseDups =
      if f ∈ fields then fields.eraseDups else fields.eraseDups ++ [f] := by
  rw [List.eraseDups_append]
  by_cases hf : f ∈ fields
  · have hnone : [f].removeAll fields = [] := by simp [List.removeAll, hf]
    rw [if_pos hf, hnone, List.eraseDups_nil, List.append_nil]
  · have hone : [f].removeAll fields = [f] := by simp [List.removeAll, hf]
    rw [if_neg hf, hone]
    rfl

end TextField

namespace TextStyle

variable {style : TextStyle}

/-! ## Settings and mask in step -/

/-- A field is set where it stands, or behind the others. -/
theorem map_field_put (s : TextSetting) (settings : List TextSetting) :
    (put s settings).map (·.field) =
      if s.field ∈ settings.map (·.field) then settings.map (·.field)
      else settings.map (·.field) ++ [s.field] := by
  induction settings with
  | nil => rfl
  | cons t rest ih =>
    rw [put]
    by_cases hfield : t.field = s.field
    · rw [if_pos (beq_iff_eq.2 hfield), if_pos (by simp [hfield])]
      simp [hfield]
    · rw [if_neg (by simpa using hfield), List.map_cons, ih, List.map_cons]
      by_cases hrest : s.field ∈ rest.map (·.field)
      · rw [if_pos hrest, if_pos (List.mem_cons_of_mem _ hrest)]
      · rw [if_neg hrest, if_neg (by simp [Ne.symm hfield, hrest]), List.cons_append]

/-- The mask names the fields that are set, in the order in which they were first set. -/
def Agrees (style : TextStyle) : Prop :=
  style.mask.eraseDups = style.settings.map (·.field)

theorem agrees_empty : ({} : TextStyle).Agrees :=
  rfl

/-- One setting, and its own field named with it, keep settings and mask in step. -/
theorem Agrees.add_some (h : style.Agrees) (s : TextSetting) :
    (style.add (some s) s.field).Agrees := by
  -- A field is new to the mask exactly when it is new to the settings.
  have hmem : s.field ∈ style.mask ↔ s.field ∈ style.settings.map (·.field) := by
    rw [← h, List.mem_eraseDups]
  show (style.mask ++ [s.field]).eraseDups = (put s style.settings).map (·.field)
  rw [TextField.eraseDups_concat, map_field_put, h]
  simp only [hmem]

theorem Agrees.add {setting : Option TextSetting} {field : TextField} (h : style.Agrees)
    (hfield : ∀ s, setting = some s → s.field = field) : (style.add setting field).Agrees := by
  cases setting with
  | none => exact h
  | some s =>
    have hset := h.add_some s
    rwa [hfield s rfl] at hset

theorem Agrees.add_map {α : Type} {field : TextField} (h : style.Agrees) (a? : Option α)
    (make : α → TextSetting) (hmake : ∀ a, (make a).field = field) :
    (style.add (a?.map make) field).Agrees := by
  refine h.add fun s hs => ?_
  obtain ⟨a, -, rfl⟩ := Option.map_eq_some_iff.1 hs
  exact hmake a

theorem Agrees.add_if (h : style.Agrees) (s : TextSetting) (p : Prop) [Decidable p] :
    (style.add (if p then some s else none) s.field).Agrees := by
  split
  · exact h.add_some s
  · exact h

/-- The two fields of code are named together, after both are set. -/
theorem addCode_eq (style : TextStyle) :
    style.addCode = (style.add (some (.font "Courier New".toList)) .font).add
      (some (.background (.grey 0.95))) .background := by
  simp only [addCode, add, set, name, List.append_assoc, List.cons_append, List.nil_append]

theorem Agrees.addCode (h : style.Agrees) : style.addCode.Agrees := by
  rw [addCode_eq]
  exact (h.add_some _).add_some _

/-- Every format names the fields that it sets. -/
theorem Agrees.addFormat (h : style.Agrees) (f : Format) : (style.addFormat f).Agrees := by
  cases f with
  | bold => exact h.add_some (.bold true)
  | italic => exact h.add_some (.italic true)
  | strikethrough => exact h.add_some (.strikethrough true)
  | underline => exact h.add_some (.underline true)
  | code => exact h.addCode
  | superscript => exact h.add_some (.baseline .raised)
  | subscript => exact h.add_some (.baseline .lowered)
  | smallCaps => exact h.add_some (.smallCaps true)
  | link url => exact h.add_map (Link.ofAddress? url) .link fun _ => rfl
  | font family => exact h.add_some (.font family)
  | size written => exact h.add_map ((Real.read? written).filter (0 < ·)) .size fun _ => rfl
  | color written => exact h.add_map (Color.read? written) .foreground fun _ => rfl
  | background written => exact h.add_map (Color.read? written) .background fun _ => rfl
  | _ => exact h

theorem agrees_ofFormats (formats : List Format) : (ofFormats formats).Agrees := by
  suffices hfold : ∀ style : TextStyle, style.Agrees →
      (formats.foldl TextStyle.addFormat style).Agrees from hfold {} agrees_empty
  induction formats with
  | nil => exact fun _ h => h
  | cons f formats ih => exact fun _ h => ih _ (h.addFormat f)

theorem Agrees.addBaseline (h : style.Agrees) (raised lowered : Option Bool) :
    (style.addBaseline raised lowered).Agrees :=
  ((h.add_if (.baseline .raised) _).add_if (.baseline .lowered) _).add_if (.baseline .normal) _

/-- Every flag names the field that it sets, whether it is switched on or off. -/
theorem Agrees.addFlags (h : style.Agrees) (d : Directive) : (style.addFlags d).Agrees := by
  have hbold := h.add_map d.bold .bold fun _ => rfl
  have hitalic := hbold.add_map d.italic .italic fun _ => rfl
  have hunderline := hitalic.add_map d.underline .underline fun _ => rfl
  have hstrike := hunderline.add_map d.strike .strikethrough fun _ => rfl
  have hcaps := hstrike.add_map d.smallCaps .smallCaps fun _ => rfl
  have hbaseline := hcaps.addBaseline d.superscript d.subscript
  show TextStyle.Agrees (if d.code == some true then _ else _)
  split
  · exact hbaseline.addCode
  · exact hbaseline

theorem agrees_ofDirective (d : Directive) : (ofDirective d).Agrees := by
  have hflags : (({} : TextStyle).addFlags d).Agrees := agrees_empty.addFlags d
  have hfont : ((({} : TextStyle).addFlags d).add
      (if d.font.isEmpty then none else some (.font d.font)) .font).Agrees := by
    refine hflags.add fun s hs => ?_
    split at hs <;> cases hs
    rfl
  have hsize := hfont.add_map d.size .size fun _ => rfl
  have hcolor := hsize.add_map (Color.read? d.color) .foreground fun _ => rfl
  have hbackground := hcolor.add_map (Color.read? d.background) .background fun _ => rfl
  refine hbackground.add fun s hs => ?_
  split at hs
  · cases hs
  · obtain ⟨target, -, rfl⟩ := Option.map_eq_some_iff.1 hs
    rfl

/-- A directive without a setting for text has none for its style. -/
theorem ofDirective_of_not_stylesText {d : Directive} (h : d.stylesText = false) :
    ofDirective d = {} := by
  simp only [Directive.stylesText, Flag.all, List.any_cons, List.any_nil, Directive.flag,
    Bool.or_eq_false_iff, Option.isSome_eq_false_iff, Option.isNone_iff_eq_none,
    Bool.not_eq_false', List.isEmpty_iff] at h
  simp [ofDirective, addFlags, addBaseline, add, h, Color.read?]

/-! ## Later settings count -/

/-- The setting of a field. -/
def get? (style : TextStyle) (f : TextField) : Option TextSetting :=
  style.settings.find? (·.field == f)

theorem find?_put (s : TextSetting) (settings : List TextSetting) (f : TextField) :
    (put s settings).find? (·.field == f) =
      if s.field = f then some s else settings.find? (·.field == f) := by
  induction settings with
  | nil =>
    by_cases hf : s.field = f <;> simp [put, hf]
  | cons t rest ih =>
    rw [put]
    by_cases hfield : t.field = s.field
    · rw [if_pos (beq_iff_eq.2 hfield), List.find?_cons, List.find?_cons, hfield]
      by_cases hf : s.field = f
      · rw [beq_iff_eq.2 hf, if_pos hf]
      · rw [beq_false_of_ne hf, if_neg hf]
    · rw [if_neg (by simpa using hfield), List.find?_cons, List.find?_cons, ih]
      by_cases ht : t.field = f
      · have hf : s.field ≠ f := fun hf => hfield (ht.trans hf.symm)
        rw [beq_iff_eq.2 ht, if_neg hf, if_neg hf]
      · rw [beq_false_of_ne ht]

/-- The step sets the same fields in every style, in the place of what was set before. -/
def Overrides (step : TextStyle → TextStyle) : Prop :=
  ∀ style f, (step style).get? f = ((step {}).get? f).or (style.get? f)

theorem Overrides.comp {step next : TextStyle → TextStyle} (hnext : Overrides next)
    (hstep : Overrides step) : Overrides fun style => next (step style) := by
  intro style f
  calc (next (step style)).get? f
      = ((next {}).get? f).or ((step style).get? f) := hnext _ f
    _ = ((next {}).get? f).or (((step {}).get? f).or (style.get? f)) := by rw [hstep style f]
    _ = (((next {}).get? f).or ((step {}).get? f)).or (style.get? f) := Option.or_assoc.symm
    _ = ((next (step {})).get? f).or (style.get? f) := by rw [hnext (step {}) f]

theorem overrides_id : Overrides id :=
  fun _ _ => rfl

theorem overrides_add (setting : Option TextSetting) (field : TextField) :
    Overrides fun style => style.add setting field := by
  cases setting with
  | none => exact overrides_id
  | some s =>
    intro style f
    show (put s style.settings).find? _ = ((put s []).find? _).or (style.settings.find? _)
    rw [find?_put, find?_put]
    by_cases hf : s.field = f
    · rw [if_pos hf, if_pos hf]
      rfl
    · rw [if_neg hf, if_neg hf]
      rfl

theorem overrides_addFormat (f : Format) : Overrides fun style => style.addFormat f := by
  cases f with
  | code =>
    have hcode : (fun style : TextStyle => style.addFormat .code) = _ := funext addCode_eq
    rw [hcode]
    exact (overrides_add _ _).comp (overrides_add _ _)
  | heading _ | bullet | numbered | checkbox | blockquote | codeBlock | footnote | rule | other _ =>
    exact overrides_id
  | _ => exact overrides_add _ _

theorem overrides_foldl (formats : List Format) : Overrides (formats.foldl addFormat ·) := by
  induction formats with
  | nil => exact overrides_id
  | cons f formats ih => exact ih.comp (overrides_addFormat f)

theorem get?_ofFormats_append (formats later : List Format) (f : TextField) :
    (ofFormats (formats ++ later)).get? f =
      ((ofFormats later).get? f).or ((ofFormats formats).get? f) := by
  rw [ofFormats, List.foldl_append]
  exact overrides_foldl later _ f

theorem get?_ofFormats_eq_none_iff (formats : List Format) (f : TextField) :
    (ofFormats formats).get? f = none ↔ ∀ g ∈ formats, (ofFormats [g]).get? f = none := by
  induction formats with
  | nil => exact iff_of_true rfl fun g hg => absurd hg List.not_mem_nil
  | cons g formats ih =>
    rw [← List.singleton_append, get?_ofFormats_append, Option.or_eq_none_iff, ih,
      List.singleton_append, List.forall_mem_cons, and_comm]

end TextStyle

namespace Request

variable {style : TextStyle} {span : Span} {r : Request}

/-! ## Styles as they are sent -/

/-- The request is sent with the settings of the style, and with a mask that names exactly the
fields that are set, each once. -/
def Carries (span : Span) (style : TextStyle) (r : Request) : Prop :=
  ∃ settings mask, r.toJson = .ofFields [("updateTextStyle", .ofFields
      [("range", span.toJson), ("textStyle", .obj settings), ("fields", .str mask)])] ∧
    (Text.fields ',' mask).Nodup ∧ Text.fields ',' mask = settings.map (·.1) ∧
    ∀ f : TextField, (Json.obj settings).get? f.name = (style.get? f).map TextSetting.value

/-- The names of a mask, as they are sent. -/
theorem fields_join_mask {mask : List TextField} (h : mask ≠ []) :
    Text.fields ',' (Text.join [','] (mask.map fun f => f.name.toList)) =
      mask.map fun f => f.name.toList := by
  refine Text.fields_join ?_ fun name hname => ?_
  · rwa [Ne, List.map_eq_nil_iff]
  · obtain ⟨f, -, rfl⟩ := List.mem_map.1 hname
    exact f.comma_not_mem_name

theorem get?_settings (style : TextStyle) (f : TextField) :
    (Json.obj (style.settings.map fun s => (s.field.name.toList, s.value))).get? f.name =
      (style.get? f).map TextSetting.value := by
  have hsame : ∀ s : TextSetting, (s.field.name.toList == f.name.toList) = (s.field == f) := by
    intro s
    rw [Bool.eq_iff_iff, beq_iff_eq, beq_iff_eq, String.toList_inj]
    exact ⟨TextField.name_injective, congrArg _⟩
  rw [Json.get?, List.find?_map, Option.map_map, TextStyle.get?]
  simp only [Function.comp_def, hsame]

theorem toJson_styleText (span : Span) (settings : List TextSetting) (mask : List TextField) :
    (styleText span settings mask).toJson = .ofFields [("updateTextStyle", .ofFields
      [("range", span.toJson),
        ("textStyle", .obj (settings.map fun s => (s.field.name.toList, s.value))),
        ("fields", .str (Text.join [','] (mask.map fun f => f.name.toList)))])] := by
  have hstyle : Json.ofFields (settings.map fun s => (s.field.name, s.value)) =
      .obj (settings.map fun s => (s.field.name.toList, s.value)) := by
    rw [Json.ofFields, List.map_map]
    rfl
  have hmask : (mask.map (·.name)).map (·.toList) = mask.map fun f => f.name.toList :=
    List.map_map
  rw [← hstyle, ← hmask]
  rfl

section Agrees

variable (hagrees : style.Agrees)
include hagrees

theorem carries_styleText (h : style.settings ≠ []) (span : Span) :
    Carries span style (.styleText span style.settings style.mask.eraseDups) := by
  have hmask : style.mask.eraseDups ≠ [] := by
    rwa [hagrees, Ne, List.map_eq_nil_iff]
  refine ⟨_, _, toJson_styleText _ _ _, ?_, ?_, get?_settings style⟩
  · rw [fields_join_mask hmask]
    refine List.Pairwise.map _ (fun f g hne hname => hne ?_) (TextField.nodup_eraseDups _)
    exact TextField.name_injective (String.toList_inj.1 hname)
  · rw [fields_join_mask hmask, hagrees, List.map_map, List.map_map]
    rfl

theorem mask_eq_nil_iff : style.mask = [] ↔ style.settings = [] := by
  rw [← List.map_eq_nil_iff (f := TextSetting.field), ← hagrees]
  constructor
  · intro h
    rw [h]
    rfl
  · intro h
    rw [List.eq_nil_iff_forall_not_mem] at h ⊢
    exact fun f hf => h f (List.mem_eraseDups.2 hf)

theorem ofStyle_eq_nil_iff : ofStyle style span = [] ↔ ∀ f, style.get? f = none := by
  have hnone : (∀ f, style.get? f = none) ↔ style.settings = [] := by
    constructor
    · intro h
      cases hsettings : style.settings with
      | nil => rfl
      | cons s rest =>
        have hs := h s.field
        rw [TextStyle.get?, hsettings, List.find?_cons, beq_self_eq_true] at hs
        cases hs
    · intro h f
      rw [TextStyle.get?, h]
      rfl
  rw [hnone, ← mask_eq_nil_iff hagrees, ofStyle]
  split
  · next h => exact iff_of_true rfl (List.isEmpty_iff.1 h)
  · next h => exact iff_of_false (List.cons_ne_nil _ _) fun hnil => h (List.isEmpty_iff.2 hnil)

theorem eq_styleText_of_mem_ofStyle (h : r ∈ ofStyle style span) :
    style.settings ≠ [] ∧ r = .styleText span style.settings style.mask.eraseDups := by
  rw [ofStyle] at h
  split at h
  · cases h
  · next hmask =>
    rw [List.isEmpty_iff, mask_eq_nil_iff hagrees] at hmask
    exact ⟨hmask, List.mem_singleton.1 h⟩

theorem carries_of_mem_ofStyle (h : r ∈ ofStyle style span) : r.Carries span style := by
  obtain ⟨hne, rfl⟩ := eq_styleText_of_mem_ofStyle hagrees h
  exact carries_styleText hagrees hne span

/-- A request for settings never only clears. -/
theorem ne_clearing_of_mem_ofStyle (h : r ∈ ofStyle style span) : r ≠ clearing span := by
  rintro rfl
  obtain ⟨hne, hclearing⟩ := eq_styleText_of_mem_ofStyle hagrees h
  exact hne (Request.styleText.inj hclearing).2.1.symm

end Agrees

/-- What a directive asks for is left out only where there is nothing to ask for. -/
theorem styleByDirective_eq (d : Directive) (span : Span) :
    styleByDirective d span = (if d.reset || !d.keepStyle then [clearing span] else []) ++
      ofStyle (.ofDirective d) span := by
  have hstyles : (if d.stylesText then ofStyle (.ofDirective d) span else []) =
      ofStyle (.ofDirective d) span := by
    split
    · rfl
    · next h =>
      rw [TextStyle.ofDirective_of_not_stylesText (Bool.eq_false_iff.2 h)]
      rfl
  rw [styleByDirective, hstyles]
  split <;> rfl

theorem mem_styleByDirective {d : Directive} :
    r ∈ styleByDirective d span ↔ (d.reset = true ∨ d.keepStyle = false) ∧ r = clearing span ∨
      r ∈ ofStyle (.ofDirective d) span := by
  have hclears : (d.reset || !d.keepStyle) = true ↔ d.reset = true ∨ d.keepStyle = false := by simp
  rw [styleByDirective_eq, List.mem_append, ← hclears]
  refine or_congr_left ?_
  split
  · next h => rw [List.mem_singleton, and_iff_right h]
  · next h => exact iff_of_false List.not_mem_nil fun hr => h hr.1

theorem mem_ofStyle_of_mem_tail {d : Directive} (h : r ∈ (styleByDirective d span).tail) :
    r ∈ ofStyle (.ofDirective d) span := by
  rw [styleByDirective_eq] at h
  split at h
  · exact h
  · exact List.mem_of_mem_tail h

theorem head?_styleByDirective (d : Directive) (span : Span) :
    (styleByDirective d span).head? = some (clearing span) ↔
      d.reset = true ∨ d.keepStyle = false := by
  constructor
  · intro h
    rcases mem_styleByDirective.1 (List.mem_of_mem_head? h) with ⟨hclears, -⟩ | hmem
    · exact hclears
    · exact absurd rfl (ne_clearing_of_mem_ofStyle (TextStyle.agrees_ofDirective d) hmem)
  · intro h
    rw [styleByDirective_eq, if_pos (by simpa using h)]
    rfl

theorem styleByFormats_eq_nil_iff (formats : List Format) (span : Span) :
    styleByFormats formats span = [] ↔ ∀ g ∈ formats, styleByFormats [g] span = [] := by
  have hempty : ∀ formats, styleByFormats formats span = [] ↔
      ∀ f, (TextStyle.ofFormats formats).get? f = none :=
    fun formats => ofStyle_eq_nil_iff (TextStyle.agrees_ofFormats formats)
  simp only [hempty, TextStyle.get?_ofFormats_eq_none_iff formats]
  exact ⟨fun h g hg f => h f g hg, fun h f g hg => h g hg f⟩

/-- A request for a text style, whether formats or a directive ask for it, is sent with a mask of
exactly the fields that it sets.  Formats ask for one unless none of them sets anything, and the
last of them that sets a field counts.  Only the request that clears the old style sets nothing; a
directive sends it first exactly when it resets the style or does not keep it, and never later. -/
theorem masks_match_styles (formats : List Format) (d : Directive) (span : Span) :
    (∀ r ∈ styleByFormats formats span, r.Carries span (.ofFormats formats)) ∧
      (styleByFormats formats span = [] ↔ ∀ g ∈ formats, styleByFormats [g] span = []) ∧
      (∀ later f, (TextStyle.ofFormats (formats ++ later)).get? f =
        ((TextStyle.ofFormats later).get? f).or ((TextStyle.ofFormats formats).get? f)) ∧
      (clearing span).toJson = .ofFields [("updateTextStyle", .ofFields
        [("range", span.toJson), ("textStyle", .obj []),
          ("fields", .str (Text.join [','] (clearedFields.map fun f => f.name.toList)))])] ∧
      (∀ r ∈ styleByDirective d span, r = clearing span ∨ r.Carries span (.ofDirective d)) ∧
      ((∀ r ∈ styleByDirective d span, r = clearing span) ↔
        ∀ f, (TextStyle.ofDirective d).get? f = none) ∧
      ((styleByDirective d span).head? = some (clearing span) ↔
        d.reset = true ∨ d.keepStyle = false) ∧
      ∀ r ∈ (styleByDirective d span).tail, r ≠ clearing span := by
  have hagrees := TextStyle.agrees_ofDirective d
  refine ⟨fun r => carries_of_mem_ofStyle (TextStyle.agrees_ofFormats formats),
    styleByFormats_eq_nil_iff formats span, TextStyle.get?_ofFormats_append formats,
    toJson_styleText span [] _, fun r hr => ?_, ?_, head?_styleByDirective d span,
    fun r hr => ne_clearing_of_mem_ofStyle hagrees (mem_ofStyle_of_mem_tail hr)⟩
  · exact (mem_styleByDirective.1 hr).imp And.right (carries_of_mem_ofStyle hagrees)
  · rw [← @ofStyle_eq_nil_iff _ span hagrees, List.eq_nil_iff_forall_not_mem]
    constructor
    · intro hclears r hr
      exact ne_clearing_of_mem_ofStyle hagrees hr (hclears r (mem_styleByDirective.2 (.inr hr)))
    · intro hnone r hr
      rcases mem_styleByDirective.1 hr with ⟨-, hclearing⟩ | hmem
      · exact hclearing
      · exact absurd hmem (hnone r)

/-- Code in a font of its own, so that one field is set twice, and a colour that cannot be read. -/
def styledCode : List Format :=
  [.code, .font "Arial".toList, .bold, .color ['x']]

theorem masks_match_styles_styledCode :
    (∃ r ∈ styleByFormats styledCode ⟨1, 5⟩, r.Carries ⟨1, 5⟩ (.ofFormats styledCode)) ∧
      (TextStyle.ofFormats styledCode).mask = [.font, .background, .font, .bold] ∧
      (TextStyle.ofFormats styledCode).get? .font = some (.font "Arial".toList) ∧
      (∃ r ∈ styleByDirective { bold := some true } ⟨1, 5⟩,
        r ≠ clearing ⟨1, 5⟩ ∧ r.Carries ⟨1, 5⟩ (.ofDirective { bold := some true })) ∧
      (styleByDirective { bold := some true } ⟨1, 5⟩).head? = some (clearing ⟨1, 5⟩) := by
  obtain ⟨hformats, -, -, -, hdirective, -, hhead, htail⟩ :=
    masks_match_styles styledCode { bold := some true } ⟨1, 5⟩
  have hne := htail _ List.mem_cons_self
  exact ⟨⟨_, List.mem_cons_self, hformats _ List.mem_cons_self⟩, rfl, rfl,
    ⟨_, List.mem_cons_of_mem _ List.mem_cons_self, hne,
      (hdirective _ (List.mem_cons_of_mem _ List.mem_cons_self)).resolve_left hne⟩,
    hhead.2 (.inr rfl)⟩

end Request

end Redline
