import SearchQuery.Proofs.OperatorIdentities

/-! # The members of a set

A set is given as a list, as a text with commas or line breaks between the members, or as a single
value. Each way lists members; the set has those that are not blank, in their order, with the texts
trimmed. So it does not matter to a request in which way a set is given, and the list of its own
members is one of these ways. -/
namespace SearchQuery

namespace Text

/-- Whether a text has no separator in it. -/
def IsPart (s : String) : Prop := ',' ∉ s.toList ∧ '\n' ∉ s.toList

/-- Parts make a text when there is a separator, any of the two, between each and the next. -/
inductive Joined : List String → String → Prop
  | nil : Joined [] ""
  | single (part : String) : Joined [part] part
  | cons (part : String) {next : String} {parts : List String} {separator : Char} {text : String}
      (hseparator : separator = ',' ∨ separator = '\n') (h : Joined (next :: parts) text) :
      Joined (part :: next :: parts) (part ++ String.singleton separator ++ text)

theorem IsPart.ne_separator {s : String} (h : IsPart s) :
    ∀ c ∈ s.toList, (decide (c = ',') || decide (c = '\n')) = false := by
  intro c hc
  rw [Bool.or_eq_false_iff, decide_eq_false_iff_not, decide_eq_false_iff_not]
  constructor
  · rintro rfl
    exact h.1 hc
  · rintro rfl
    exact h.2 hc

/-- A text is split into the parts that make it. -/
theorem Joined.splitOnP_eq {parts : List String} {text : String} (h : Joined parts text)
    (hparts : ∀ part ∈ parts, IsPart part) (hne : parts ≠ []) :
    (text.toList.splitOnP fun c => c = ',' || c = '\n') = parts.map String.toList := by
  induction h with
  | nil => exact absurd rfl hne
  | single part =>
    exact List.splitOnP_eq_singleton (hparts part List.mem_cons_self).ne_separator
  | cons part hseparator _ ih =>
    obtain ⟨hpart, hrest⟩ := List.forall_mem_cons.1 hparts
    rw [String.toList_append, String.toList_append, String.toList_singleton, List.append_assoc,
      List.singleton_append, List.splitOnP_append_cons_of_forall_mem hpart.ne_separator _
        (by simpa using hseparator), ih hrest (List.cons_ne_nil _ _)]
    rfl

/-- A blank text has blank parts. -/
theorem Joined.isBlank_part {parts : List String} {text : String} (h : Joined parts text)
    (hblank : isBlank text = true) : ∀ part ∈ parts, isBlank part = true := by
  induction h with
  | nil => simp
  | single part => simpa using hblank
  | cons part _ _ ih =>
    simp only [isBlank, String.toList_append, List.all_append, Bool.and_eq_true] at hblank
    exact List.forall_mem_cons.2 ⟨hblank.1.1, ih hblank.2⟩

/-- A character in front of a text stands in front of the first part. -/
theorem Joined.cons_char {part : String} {parts : List String} {text : String}
    (h : Joined (part :: parts) text) (c : Char) :
    Joined ((String.singleton c ++ part) :: parts) (String.singleton c ++ text) := by
  cases h with
  | single => exact .single _
  | cons _ hseparator h =>
    rw [← String.append_assoc, ← String.append_assoc]
    exact .cons _ hseparator h

/-- Every text is made by parts. -/
theorem exists_joined (text : String) :
    ∃ part parts, Joined (part :: parts) text ∧ ∀ p ∈ part :: parts, IsPart p := by
  suffices h : ∀ cs : List Char, ∃ part parts, Joined (part :: parts) (.ofList cs) ∧
      ∀ p ∈ part :: parts, IsPart p by
    simpa using h text.toList
  intro cs
  induction cs with
  | nil => exact ⟨"", [], .single "", by simp [IsPart]⟩
  | cons c cs ih =>
    -- a separator ends an empty part, any other character goes in front of the first part
    obtain ⟨part, parts, hjoined, hparts⟩ := ih
    have hcons : String.ofList (c :: cs) = String.singleton c ++ String.ofList cs := by
      rw [← String.toList_inj]
      simp
    by_cases hc : c = ',' ∨ c = '\n'
    · refine ⟨"", part :: parts, ?_, List.forall_mem_cons.2 ⟨by simp [IsPart], hparts⟩⟩
      have h := Joined.cons "" hc hjoined
      rwa [String.empty_append, ← hcons] at h
    · obtain ⟨hpart, hrest⟩ := List.forall_mem_cons.1 hparts
      refine ⟨_, parts, hcons ▸ hjoined.cons_char c, List.forall_mem_cons.2 ⟨?_, hrest⟩⟩
      obtain ⟨hcomma, hbreak⟩ := not_or.1 hc
      simp [IsPart, hpart.1, hpart.2, Ne.symm hcomma, Ne.symm hbreak]

end Text

/-- A text trimmed, any other value as it is. -/
def Json.trimmed : Json → Json
  | .str s => .str (Text.trim s)
  | v => v

/-- The members that a value lists, as they are given. -/
inductive Json.Lists : Json → List Json → Prop
  | items (items : List Json) : Lists (.arr items) items
  | parts {parts : List String} {text : String} (h : Text.Joined parts text)
      (hparts : ∀ part ∈ parts, Text.IsPart part) : Lists (.str text) (parts.map .str)
  | nothing : Lists .null []
  | single {v : Json} (hnull : v ≠ .null) (hstr : ∀ s, v ≠ .str s) (harr : ∀ items, v ≠ .arr items) :
      Lists v [v]

theorem Json.exists_lists (v : Json) : ∃ given, v.Lists given := by
  cases v with
  | null => exact ⟨[], .nothing⟩
  | arr items => exact ⟨items, .items items⟩
  | str text =>
    obtain ⟨part, parts, hjoined, hparts⟩ := Text.exists_joined text
    exact ⟨_, .parts hjoined hparts⟩
  | _ => exact ⟨_, .single nofun nofun nofun⟩

namespace Condition

/-- The parts of a text that are kept, and the kept items of the list of the parts. -/
theorem filterMap_trimmed? (parts : List String) :
    (parts.filterMap fun part => (Text.trimmed? part).map Json.str) =
      ((parts.map Json.str).filter fun v => !v.isBlank).map Json.trimmed := by
  induction parts with
  | nil => rfl
  | cons part parts ih =>
    have hkept : (Json.str part).isBlank = Text.isBlank part := rfl
    rw [List.map_cons, List.filterMap_cons, List.filter_cons, hkept, ih, Text.trimmed?]
    cases Text.isBlank part <;> rfl

/-- However the members are given, those that are not blank are kept, trimmed. -/
theorem setMembers_of_lists {v : Json} {given : List Json} (h : v.Lists given) :
    setMembers v = (given.filter fun m => !m.isBlank).map Json.trimmed := by
  cases h with
  | items => exact List.map_congr_left fun m _ => by cases m <;> rfl
  | @parts parts text hjoined hparts =>
    rw [← filterMap_trimmed?]
    cases parts with
    | nil =>
      cases hjoined
      rfl
    | cons part parts =>
      rw [setMembers, hjoined.splitOnP_eq hparts (List.cons_ne_nil _ _), List.filterMap_map]
      simp
  | nothing => rfl
  | single hnull hstr harr =>
    cases v with
    | null => exact absurd rfl hnull
    | str s => exact absurd rfl (hstr s)
    | arr items => exact absurd rfl (harr items)
    | _ => rfl

theorem trimmed_of_mem_setMembers {v m : Json} (h : m ∈ setMembers v) :
    m.IsFilled ∧ m.trimmed = m := by
  obtain ⟨given, hgiven⟩ := v.exists_lists
  rw [setMembers_of_lists hgiven] at h
  obtain ⟨g, hg, rfl⟩ := List.mem_map.1 h
  have hblank : g.isBlank = false := by simpa using (List.mem_filter.1 hg).2
  rw [Json.isFilled_iff]
  cases g with
  | str s => exact ⟨(Text.isBlank_trim s).trans hblank, congrArg Json.str (Text.trim_trim s)⟩
  | _ => exact ⟨hblank, rfl⟩

/-- A set is the list of its members. -/
theorem setMembers_setMembers (v : Json) : setMembers (.arr (setMembers v)) = setMembers v := by
  have hkept : (setMembers v).filter (fun m => !m.isBlank) = setMembers v := by
    rw [List.filter_eq_self]
    intro m hm
    simpa [Json.isFilled_iff] using (trimmed_of_mem_setMembers hm).1
  rw [setMembers_of_lists (.items _), hkept]
  exact (List.map_congr_left fun m hm => (trimmed_of_mem_setMembers hm).2).trans (List.map_id _)

/-- A blank value has no members. -/
theorem setMembers_of_isBlank {v : Json} (h : v.isBlank = true) : setMembers v = [] := by
  obtain ⟨given, hgiven⟩ := v.exists_lists
  rw [setMembers_of_lists hgiven, List.map_eq_nil_iff, List.filter_eq_nil_iff]
  cases hgiven with
  | items => cases h
  | parts hjoined =>
    have hparts := hjoined.isBlank_part h
    simpa [Json.isBlank] using hparts
  | nothing => simp
  | single => simpa using h

/-- A test for a set survives when the set has a member. -/
theorem survives_in_iff {c : Condition} (ho : c.operator = .in) (v : Json) :
    ({ c with value := some v } : Condition).Survives ↔
      Text.trim c.field ≠ "" ∧ setMembers v ≠ [] := by
  constructor
  · intro h
    obtain ⟨u, hu, hmember⟩ := h.members ho
    obtain rfl : v = u := Option.some.inj hu
    exact ⟨h.field, (setMembers_ne_nil_iff v).2 hmember⟩
  · rintro ⟨hfield, hmembers⟩
    have hfilled : v.IsFilled := by
      rw [Json.isFilled_iff, ← Bool.not_eq_true]
      exact fun hblank => hmembers (setMembers_of_isBlank hblank)
    have hknown : c.operator ∈ Operator.known := by simp [ho, Operator.known]
    exact ⟨hfield, hknown, .inr (.inr ⟨v, rfl, hfilled⟩),
      fun _ => ⟨v, rfl, (setMembers_ne_nil_iff v).1 hmembers⟩⟩

/-- A test for a set reads the members of its value and nothing else of it. -/
theorem leaf?_of_setMembers_eq {c : Condition} (ho : c.operator = .in) {v w : Json}
    (h : setMembers v = setMembers w) (catalog : Option Catalog) :
    ({ c with value := some v } : Condition).leaf? catalog =
      ({ c with value := some w } : Condition).leaf? catalog := by
  have hsame : ({ c with value := some v } : Condition).Survives ↔
      ({ c with value := some w } : Condition).Survives := by
    rw [survives_in_iff ho, survives_in_iff ho, h]
  by_cases hv : ({ c with value := some v } : Condition).Survives
  · rw [hv.leaf?_eq, (hsame.1 hv).leaf?_eq]
    simp only [leafQuery, ho, Option.getD_some, h]
    rfl
  · have hw := mt hsame.2 hv
    rw [(leaf?_eq_none_iff _ _).2 hv, (leaf?_eq_none_iff _ _).2 hw]

end Condition

namespace FilterForm

/-- The members of a set do not depend on the way in which it is given: the list of some texts, and
these texts joined by separators, make one request; so do any value and the list of its members. The
members are those that the value lists, in this order, without the blank ones and with the texts
trimmed. -/
theorem compile_setMembers :
    (∀ (f : FilterForm) (catalog : Option Catalog) (before after : List Condition) (c : Condition)
      (parts : List String) (text : String), c.operator = .in →
      (∀ part ∈ parts, Text.IsPart part) → Text.Joined parts text →
      (f.withConditions (before ++ { c with value := some (.str text) } :: after)).compile
          catalog =
        (f.withConditions (before ++ { c with value := some (.arr (parts.map .str)) } ::
          after)).compile catalog) ∧
    (∀ (f : FilterForm) (catalog : Option Catalog) (before after : List Condition) (c : Condition)
      (v : Json), c.operator = .in →
      (f.withConditions (before ++ { c with value := some (.arr (Condition.setMembers v)) } ::
          after)).compile catalog =
        (f.withConditions (before ++ { c with value := some v } :: after)).compile catalog) ∧
    ∀ v : Json, (∃ given, v.Lists given) ∧
      (∀ given, v.Lists given →
        Condition.setMembers v = (given.filter fun m => !m.isBlank).map Json.trimmed) ∧
      (∀ m ∈ Condition.setMembers v, m.IsFilled ∧ m.trimmed = m) ∧
      Condition.setMembers (.arr (Condition.setMembers v)) = Condition.setMembers v := by
  refine ⟨?_, ?_, fun v => ⟨v.exists_lists, fun _ => Condition.setMembers_of_lists,
    fun _ => Condition.trimmed_of_mem_setMembers, Condition.setMembers_setMembers v⟩⟩
  · intro f catalog before after c parts text ho hparts hjoined
    have hmembers : Condition.setMembers (.str text) =
        Condition.setMembers (.arr (parts.map .str)) := by
      rw [Condition.setMembers_of_lists (.parts hjoined hparts),
        Condition.setMembers_of_lists (.items _)]
    exact (compile_replace_iff ..).2 (Condition.leaf?_of_setMembers_eq ho hmembers catalog)
  · intro f catalog before after c v ho
    exact (compile_replace_iff ..).2
      (Condition.leaf?_of_setMembers_eq ho (Condition.setMembers_setMembers v) catalog)

/-- Colours as they are typed in, with a member left empty. -/
def colors : Condition := { field := "color", operator := .in }

def colorParts : List String := ["red ", " ", "blue"]

def colorText : String := "red , \nblue"

theorem joined_colorParts : Text.Joined colorParts colorText := by
  have htext : colorText =
      "red " ++ String.singleton ',' ++ (" " ++ String.singleton '\n' ++ "blue") := by decide
  rw [htext]
  exact .cons _ (.inl rfl) (.cons _ (.inr rfl) (.single _))

theorem isPart_colorParts : ∀ part ∈ colorParts, Text.IsPart part := by
  unfold Text.IsPart
  decide

/-- The colours can be given as a list, as a text or without the empty member. -/
theorem colors_setMembers :
    (colors.operator = .in ∧ (∀ part ∈ colorParts, Text.IsPart part) ∧
        Text.Joined colorParts colorText) ∧
      (∀ catalog, (({} : FilterForm).withConditions ([] ++
            { colors with value := some (.str colorText) } :: [])).compile catalog =
          (({} : FilterForm).withConditions ([] ++
            { colors with value := some (.arr (colorParts.map .str)) } :: [])).compile catalog) ∧
      (∀ catalog, (({} : FilterForm).withConditions ([] ++
            { colors with value := some (.arr (Condition.setMembers (.str colorText))) } ::
              [])).compile catalog =
          (({} : FilterForm).withConditions ([] ++
            { colors with value := some (.str colorText) } :: [])).compile catalog) ∧
      Condition.setMembers (.str colorText) = [.str "red", .str "blue"] := by
  have hlists : (Json.str colorText).Lists (colorParts.map .str) :=
    .parts joined_colorParts isPart_colorParts
  refine ⟨⟨rfl, isPart_colorParts, joined_colorParts⟩, fun catalog => ?_, fun catalog => ?_, ?_⟩
  · exact compile_setMembers.1 _ _ _ _ colors _ _ rfl isPart_colorParts joined_colorParts
  · exact compile_setMembers.2.1 _ _ _ _ colors _ rfl
  · exact ((compile_setMembers.2.2 (.str colorText)).2.1 _ hlists).trans (by cbv)

end FilterForm
end SearchQuery
