import SearchQuery.Proofs.DistinctNames
import SearchQuery.Proofs.TrailText

/-! # Following a path

A path is read from left to right: a name lasts up to the next dot or bracket, an index stands in
brackets. The reading of the text of a plain trail is the trail. A trail leads through a document to
the values at some places, each the list of the positions of its members and items, and to one at
most when no object repeats a name. -/
namespace SearchQuery.Lint

namespace Trail

/-- Reads steps, each of which starts with its mark. -/
def stepsOf? : List Char → Option Trail
  | [] => some []
  | '.' :: cs =>
    let name := String.ofList (cs.takeWhile fun c => !isMark c)
    (stepsOf? (cs.dropWhile fun c => !isMark c)).map (.member name :: ·)
  | '[' :: cs =>
    match cs.takeWhile Char.isDigit, _ : cs.dropWhile Char.isDigit with
    | d :: ds, ']' :: rest =>
      (stepsOf? rest).map (.index (Nat.ofDigitChars 10 (d :: ds) 0) :: ·)
    | _, _ => none
  | _ => none
termination_by cs => cs.length
decreasing_by
  · have hshort := (List.dropWhile_suffix (l := cs) fun c => !isMark c).length_le
    simp only [List.length_cons]
    omega
  · rename_i hrest
    have hshort := (List.dropWhile_suffix (l := cs) Char.isDigit).length_le
    rw [hrest] at hshort
    simp only [List.length_cons] at hshort ⊢
    omega

/-- Reads a path, which starts with the name of a member. -/
def ofText? (s : String) : Option Trail := stepsOf? ('.' :: s.toList)

theorem stepsOf?_tailText {t : Trail} (h : IsPlain t) :
    stepsOf? (tailText t).toList = some t := by
  induction t with
  | nil => simp [tailText, stepsOf?]
  | cons step t ih =>
    obtain ⟨hstep, hrest⟩ := List.forall_mem_cons.1 h
    cases step with
    | member name =>
      obtain ⟨htake, hdrop⟩ := Text.takeWhile_append_of_head? (p := fun c => !isMark c)
        (fun c hc => by simp [hstep.2 c hc])
        (fun c hc => by simp [isMark_head?_tailText t c hc])
      rw [toList_tailText_member, stepsOf?, htake, hdrop, ih hrest]
      simp
    | index i =>
      have hdigit : ∀ c ∈ Json.digitChars i, c.isDigit = true :=
        fun c hc => Nat.isDigit_of_mem_toDigits (by decide) (by decide) hc
      have hmark : ∀ c ∈ (']' :: (tailText t).toList).head?, c.isDigit = false := by simp
      obtain ⟨htake, hdrop⟩ := Text.takeWhile_append_of_head? hdigit hmark
      rw [toList_tailText_index, stepsOf?]
      split
      · rename_i d ds rest hdigits hbracket
        rw [hdrop] at hbracket
        obtain rfl := (List.cons.inj hbracket).2
        rw [← hdigits, htake, ih hrest]
        simp [Json.digitChars, Nat.ofDigitChars_ten_toDigits]
      · rename_i hnone
        have hsome : Json.digitChars i ≠ [] := Nat.toDigits_ne_nil
        obtain ⟨d, ds, hdigits⟩ := List.exists_cons_of_ne_nil hsome
        exact absurd hdrop (hnone d ds _ (htake.trans hdigits))

/-- The reading of the text of a trail is the trail. -/
theorem ofText?_text {name : String} {t : Trail} (h : IsPlain (.member name :: t)) :
    ofText? (text (.member name :: t)) = some (.member name :: t) := by
  rw [ofText?, ← text_member, stepsOf?_tailText h]

example : ofText? "query.bool.filter[12].term" =
    some [.member "query", .member "bool", .member "filter", .index 12, .member "term"] := by cbv

end Trail

/-- A trail leads from a value to a part of it at a place. -/
inductive Leads : Json → List Nat → Trail → Json → Prop
  | here {v} : Leads v [] [] v
  | member {ms i name v place trail w} (hmember : ms[i]? = some (name, v))
      (hrest : Leads v place trail w) : Leads (.obj ms) (i :: place) (.member name :: trail) w
  | item {xs i v place trail w} (hitem : xs[i]? = some v) (hrest : Leads v place trail w) :
      Leads (.arr xs) (i :: place) (.index i :: trail) w

namespace Leads

theorem append {u v w : Json} {place place' : List Nat} {trail trail' : Trail}
    (h : Leads u place trail v) (h' : Leads v place' trail' w) :
    Leads u (place ++ place') (trail ++ trail') w := by
  induction h with
  | here => exact h'
  | member hmember _ ih => exact .member hmember (ih h')
  | item hitem _ ih => exact .item hitem (ih h')

theorem of_mem {ms : List (String × Json)} {name : String} {v : Json} (h : (name, v) ∈ ms) :
    ∃ place, Leads (.obj ms) place [.member name] v := by
  obtain ⟨i, hi⟩ := List.mem_iff_getElem?.1 h
  exact ⟨[i], .member hi .here⟩

theorem of_member? {body v : Json} {name : String} (h : body.member? name = some v) :
    ∃ place, Leads body place [.member name] v := by
  obtain ⟨parts, rfl, hlookup⟩ := Json.member?_eq_some_iff_lookup.1 h
  exact of_mem (Json.mem_of_lookup_eq_some hlookup)

/-- Without repeated names a trail leads to one place. -/
theorem unique {u v w : Json} {place place' : List Nat} {trail : Trail} (hnames : u.DistinctNames)
    (h : Leads u place trail v) (h' : Leads u place' trail w) : place = place' ∧ v = w := by
  induction h generalizing place' w with
  | here =>
    cases h'
    exact ⟨rfl, rfl⟩
  | member hmember _ ih =>
    cases h' with
    | member hmember' hrest' =>
      obtain ⟨rfl, rfl⟩ := hnames.getElem?_inj hmember hmember'
      obtain ⟨rfl, rfl⟩ := ih (hnames.of_mem (List.mem_of_getElem? hmember)) hrest'
      exact ⟨rfl, rfl⟩
  | item hitem _ ih =>
    cases h' with
    | item hitem' hrest' =>
      obtain rfl := Option.some.inj (hitem.symm.trans hitem')
      obtain ⟨rfl, rfl⟩ :=
        ih (Json.distinctNames_arr.1 hnames _ (List.mem_of_getElem? hitem)) hrest'
      exact ⟨rfl, rfl⟩

end Leads

end SearchQuery.Lint
