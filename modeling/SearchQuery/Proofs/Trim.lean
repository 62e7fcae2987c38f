import SearchQuery.Text.Blank
import Mathlib.Data.List.DropRight

/-! # Trimmed text

A text is trimmed when neither its first nor its last character is blank. Trimming gives such a
text, leaves it as it is from then on, and leaves nothing exactly of a blank text. -/
namespace SearchQuery.Text

/-- A run of characters is read up to the first one that does not belong to it. -/
theorem takeWhile_append_of_head? {p : Char → Bool} {xs ys : List Char}
    (hxs : ∀ c ∈ xs, p c = true) (hys : ∀ c ∈ ys.head?, p c = false) :
    (xs ++ ys).takeWhile p = xs ∧ (xs ++ ys).dropWhile p = ys := by
  rw [List.takeWhile_append_of_pos hxs, List.dropWhile_append_of_pos hxs]
  cases ys with
  | nil => simp
  | cons c ys => simp [hys c rfl]

theorem trimChars_eq (cs : List Char) :
    trimChars cs = (cs.dropWhile isBlankChar).rdropWhile isBlankChar := rfl

/-- Trimming the end keeps what comes first after trimming the start. -/
theorem head?_trimChars (cs : List Char) :
    (trimChars cs).head? = (cs.dropWhile isBlankChar).head? := by
  rw [trimChars_eq]
  cases hd : cs.dropWhile isBlankChar with
  | nil => rfl
  | cons c rest =>
    have hc : isBlankChar c = false := by
      have h := List.head?_dropWhile_not isBlankChar cs
      rwa [hd] at h
    have hne : (c :: rest).rdropWhile isBlankChar ≠ [] := fun h => by
      have hall := List.rdropWhile_eq_nil_iff.1 h c List.mem_cons_self
      simp [hc] at hall
    obtain ⟨d, ds, hcons⟩ := List.exists_cons_of_ne_nil hne
    have hprefix := List.rdropWhile_prefix isBlankChar (l := c :: rest)
    rw [hcons] at hprefix ⊢
    simp [(List.cons_prefix_cons.1 hprefix).1]

theorem trimChars_eq_nil_iff (cs : List Char) : trimChars cs = [] ↔ cs.all isBlankChar = true := by
  rw [← List.head?_eq_none_iff, head?_trimChars, List.head?_eq_none_iff, List.dropWhile_eq_nil_iff,
    List.all_eq_true]

theorem isBlankChar_of_mem_head? {cs : List Char} {c : Char} (h : c ∈ (trimChars cs).head?) :
    isBlankChar c = false := by
  have hfirst := List.head?_dropWhile_not isBlankChar cs
  rw [head?_trimChars] at h
  rwa [Option.mem_def.1 h] at hfirst

theorem isBlankChar_of_mem_getLast? {cs : List Char} {c : Char}
    (h : c ∈ (trimChars cs).getLast?) : isBlankChar c = false := by
  obtain ⟨hne, rfl⟩ := List.mem_getLast?_eq_getLast h
  have hlast := List.rdropWhile_last_not isBlankChar (cs.dropWhile isBlankChar) hne
  exact Bool.eq_false_iff.2 hlast

/-- Blank characters are trimmed from around a text that has none. -/
theorem trimChars_append {front core back : List Char}
    (hfront : ∀ c ∈ front, isBlankChar c = true) (hne : core ≠ [])
    (hcore : ∀ c ∈ core, isBlankChar c = false) (hback : ∀ c ∈ back, isBlankChar c = true) :
    trimChars (front ++ core ++ back) = core := by
  have hstart : (front ++ (core ++ back)).dropWhile isBlankChar = core ++ back := by
    refine (takeWhile_append_of_head? hfront fun c hc => ?_).2
    rw [List.head?_append_of_ne_nil _ hne] at hc
    exact hcore c (List.mem_of_mem_head? hc)
  have hend : (back.reverse ++ core.reverse).dropWhile isBlankChar = core.reverse := by
    refine (takeWhile_append_of_head? (by simpa using hback) fun c hc => ?_).2
    exact hcore c (List.mem_reverse.1 (List.mem_of_mem_head? hc))
  rw [trimChars, List.append_assoc, hstart, trimEndChars, List.reverse_append, hend,
    List.reverse_reverse]

theorem exists_blanks (cs : List Char) : ∃ front back, cs = front ++ trimChars cs ++ back ∧
    (∀ c ∈ front, isBlankChar c = true) ∧ ∀ c ∈ back, isBlankChar c = true := by
  let rest := cs.dropWhile isBlankChar
  refine ⟨cs.takeWhile isBlankChar, (rest.reverse.takeWhile isBlankChar).reverse, ?_,
    fun c hc => List.mem_takeWhile_imp hc, fun c hc => ?_⟩
  · have hend : trimChars cs ++ (rest.reverse.takeWhile isBlankChar).reverse = rest := by
      rw [trimChars, trimEndChars, ← List.reverse_append, List.takeWhile_append_dropWhile,
        List.reverse_reverse]
    rw [List.append_assoc, hend, List.takeWhile_append_dropWhile]
  · exact List.mem_takeWhile_imp (List.mem_reverse.1 hc)

theorem trim_eq_self_iff (s : String) : trim s = s ↔
    (∀ c ∈ s.toList.head?, isBlankChar c = false) ∧
      ∀ c ∈ s.toList.getLast?, isBlankChar c = false := by
  rw [trim, ← String.toList_inj, String.toList_ofList]
  constructor
  · intro h
    constructor
    · intro c hc
      exact isBlankChar_of_mem_head? (h ▸ hc)
    · intro c hc
      exact isBlankChar_of_mem_getLast? (h ▸ hc)
  · rintro ⟨hfirst, hlast⟩
    have hstart : s.toList.dropWhile isBlankChar = s.toList := by
      rw [List.dropWhile_eq_self_iff]
      intro hlen
      have h := hfirst s.toList[0] (by simp [List.head?_eq_getElem?])
      simp [h]
    rw [trimChars_eq, hstart, List.rdropWhile_eq_self_iff]
    intro hne
    have h := hlast (s.toList.getLast hne) (List.getLast?_eq_some_getLast hne)
    simp [h]

theorem trim_trim (s : String) : trim (trim s) = trim s := by
  rw [trim_eq_self_iff, trim, String.toList_ofList]
  exact ⟨fun _ => isBlankChar_of_mem_head?, fun _ => isBlankChar_of_mem_getLast?⟩

theorem isBlank_trim (s : String) : isBlank (trim s) = isBlank s := by
  have h := trimChars_eq_nil_iff (trim s).toList
  have htrim : trimChars (trim s).toList = trimChars s.toList := by
    have := congrArg String.toList (trim_trim s)
    simpa [trim] using this
  rw [htrim, trimChars_eq_nil_iff] at h
  exact Bool.eq_iff_iff.2 h.symm

theorem trim_eq_empty_iff (s : String) : trim s = "" ↔ isBlank s = true := by
  rw [trim, ← String.toList_inj, String.toList_ofList]
  exact trimChars_eq_nil_iff s.toList

theorem trimmed?_eq_some {s t : String} (h : trimmed? s = some t) :
    isBlank s = false ∧ t = trim s := by
  unfold trimmed? at h
  split at h
  · cases h
  · exact ⟨Bool.eq_false_iff.2 ‹_›, (Option.some.inj h).symm⟩

theorem trimmed?_eq_none_iff (s : String) : trimmed? s = none ↔ trim s = "" := by
  simp [trimmed?, trim_eq_empty_iff]

theorem trimmed?_of_ne_empty {s : String} (h : trim s ≠ "") : trimmed? s = some (trim s) := by
  rw [trimmed?, if_neg (mt (trim_eq_empty_iff s).2 h)]

@[simp] theorem trimmed?_trim (s : String) : trimmed? (trim s) = trimmed? s := by
  simp [trimmed?, isBlank_trim, trim_trim]

/-- What trimming leaves is not blank and trimmed. -/
theorem trimmed?_spec {s t : String} (h : trimmed? s = some t) :
    isBlank t = false ∧ trim t = t := by
  obtain ⟨hs, rfl⟩ := trimmed?_eq_some h
  exact ⟨(isBlank_trim s).trans hs, trim_trim s⟩

theorem ne_empty_of_isBlank {s : String} (h : isBlank s = false) : s ≠ "" := by
  rintro rfl
  cases h

end SearchQuery.Text
